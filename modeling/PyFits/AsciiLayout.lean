import PyFits.Table

/-!
# The layout checks of an ASCII table's `_scale_back`

`_scale_back` takes `_loc` to be the list `_coldefs.starts` itself and appends the end of the
last field to it, so when column `indx` is written `_coldefs.starts[indx] - _loc[indx]` is zero:
the check against the previous column never fires. The check against the next column compares
`_loc[indx+1]` with the end `starts[indx] + width` of the column's declared range; when it
fails, its message is built as `'...' % indx + 1`, which adds an integer to a string, so the
exception raised is a `TypeError`, not the intended `ValueError`. When the ranges do not
overlap, every value is printed, padded to the width, followed by blanks up to the next
column, and rejected with a `ValueError` exactly when its rendering is longer than the width.
The `D` of a `D` column is not restored: `replace('E', 'D')` is called on the field and its
result dropped, so the cell keeps the `E` that `%E` prints.
-/

namespace PyFits

/-- `r` with `e` appended to its `starts`. -/
def withStarts (r : FitsRec) (e : List Int) : FitsRec :=
  { r with coldefs := { r.coldefs with starts := r.coldefs.starts ++ e } }

/-- The store after `e` is appended to the `starts` of the `ColDefs` object of table `t`: every
table holding the object sees the new list. An empty `e` changes nothing. -/
def appendStarts (st : Store) (t : Nat) (e : List Int) : Store :=
  if e = [] then st else st.setColDefs (st.recs t).cdId (withStarts (st.recs t) e).coldefs

@[simp] theorem appendStarts_nil (st : Store) (t : Nat) : appendStarts st t [] = st := rfl

@[simp] theorem appendStarts_self (st : Store) (t : Nat) (e : List Int) :
    (appendStarts st t e).recs t = withStarts (st.recs t) e := by
  unfold appendStarts
  split
  · next he => simp [he, withStarts]
  · simp [Store.setColDefs, withStarts]

/-- A table that does not hold `t`'s `ColDefs` object keeps its record. -/
theorem appendStarts_other (st : Store) (t : Nat) (e : List Int) {r : Nat} (hr : (st.recs r).cdId ≠ (st.recs t).cdId) :
    (appendStarts st t e).recs r = st.recs r := by
  unfold appendStarts
  split
  · rfl
  · simp [Store.setColDefs, hr]

@[simp] theorem appendStarts_conv (st : Store) (t : Nat) (e : List Int) : (appendStarts st t e).conv = st.conv := by
  unfold appendStarts; split <;> rfl

@[simp] theorem appendStarts_mem (st : Store) (t : Nat) (e : List Int) : (appendStarts st t e).mem = st.mem := by
  unfold appendStarts; split <;> rfl

@[simp] theorem appendStarts_files (st : Store) (t : Nat) (e : List Int) : (appendStarts st t e).files = st.files := by
  unfold appendStarts; split <;> rfl

@[simp] theorem appendStarts_next (st : Store) (t : Nat) (e : List Int) : (appendStarts st t e).next = st.next := by
  unfold appendStarts; split <;> rfl

@[simp] theorem appendStarts_asciiTNull (st : Store) (t : Nat) (e : List Int) :
    (appendStarts st t e).asciiTNull = st.asciiTNull := by
  unfold appendStarts; split <;> rfl

end PyFits

namespace PyFits.AsciiLayout

/-! ## `_loc` -/

/-- After the layout step the `starts` of the table's `ColDefs` object is `_loc`, which is the old
`starts` with the end of the last field appended, in every table holding the object; `_width`
holds the widths of every column's `TFORM`; nothing else changes. -/
theorem asciiLayout_ok {self : Nat} {st st' : Store} {loc : List Int} {widths : List (Option Nat)}
    (h : asciiLayout self st = .ok (loc, widths) st') :
    st' = appendStarts st self [(st.recs self).coldefs.starts.getLast?.getD 0 +
      (((st.recs self).coldefs.col ((st.recs self).nfields - 1)).recformat.fieldType.itemsize : Int)] ∧
    loc = (st.recs self).coldefs.starts ++ [(st.recs self).coldefs.starts.getLast?.getD 0 +
      (((st.recs self).coldefs.col ((st.recs self).nfields - 1)).recformat.fieldType.itemsize : Int)] ∧
    (st.recs self).coldefs.columns.mapM (fun c => convertAsciiFormat c.format) = .ok widths := by
  simp only [asciiLayout, getRec_bind] at h
  cases hw : (st.recs self).coldefs.columns.mapM (fun c => convertAsciiFormat c.format) <;>
    cases hl : (st.recs self).coldefs.starts.getLast? <;>
    simp only [hw, hl, liftExcept_ok_bind, liftExcept_error_bind, pure_bind, throw_bind, throw_apply,
      reduceCtorEq] at h
  split at h
  · simp at h
  · simp only [setColDefs_bind, pure_apply, EStateM.Result.ok.injEq, Prod.mk.injEq] at h
    obtain ⟨⟨rfl, rfl⟩, rfl⟩ := h
    exact ⟨by simp [appendStarts, withStarts], by simp, rfl⟩

/-- A layout step that raises has changed nothing. -/
theorem asciiLayout_error {self : Nat} {st st' : Store} {e : PyError}
    (h : asciiLayout self st = .error e st') : st' = st := by
  simp only [asciiLayout, getRec_bind] at h
  cases hw : (st.recs self).coldefs.columns.mapM (fun c => convertAsciiFormat c.format) <;>
    cases hl : (st.recs self).coldefs.starts.getLast? <;>
    simp only [hw, hl, liftExcept_ok_bind, liftExcept_error_bind, pure_bind, throw_bind, throw_apply,
      EStateM.Result.error.injEq] at h
  · exact h.2.symm
  · exact h.2.symm
  · exact h.2.symm
  · split at h
    · simp only [throw_apply, EStateM.Result.error.injEq] at h
      exact h.2.symm
    · simp at h

/-! ## The overlap checks -/

section Write

variable {c : Column} {loc : List Int} {widths : List (Option Nat)} {indx : Nat} {raw : View}
  {dummy : List Elem} {s nx : Int} {w : Nat}

/-- With `starts` and `_loc` one list, a column whose declared range runs past the start of
the next one raises the `TypeError` of `str + int`, whatever its values. -/
theorem asciiWrite_next_overlap (st : Store) (hs : pyGet loc indx = .ok s)
    (hn : pyGet loc (indx + 1) = .ok nx) (hw : pyGet widths indx = .ok (some w))
    (hover : nx < s + w) :
    asciiWrite c loc loc widths indx raw dummy st = .error concatError st := by
  have htrail : nx - w < s := by omega
  simp [asciiWrite, hs, hn, hw, htrail]

/-- A table of one row whose first column, `I5` from character 1, runs into the second, which
starts at character 3. -/
def overlapping : Store :=
  Store.ofTable "TableHDU" [⟨"a", "I5", .plain "a2", none, none, ""⟩,
    ⟨"b", "I3", .plain "a3", none, none, ""⟩] [1, 3] [[.text "12".toList, .text "345".toList]] []

/-- Reading the first column and saving the table raises the `TypeError`. -/
theorem overlapping_scale_back_raises_typeError :
    raised (do let _ ← FitsRec.field 0 (.pos 0); FitsRec.scaleBack 0) overlapping =
      some concatError := by
  decide

theorem bind_discarded_read {m : M Unit} (p : Prop) [Decidable p] (v : View) (st : Store) :
    (m >>= fun _ => if p then (fun _ => ()) <$> readView v else pure ()) st = m st := by
  match h : m st with
  | .ok () st' => rw [bind_ok h]; split <;> rfl
  | .error e st' => rw [bind_error h]

/-- With no overlap, the column is written row by row, each value printed with the
column's conversion, padded to the width and followed by blanks up to the next column; the
trailing `D` step changes nothing. -/
theorem asciiWrite_fits {ch cv : Char} {rest : List Char} {fw : Nat} {p : Option Nat}
    (st : Store) (hs : pyGet loc indx = .ok s) (hn : pyGet loc (indx + 1) = .ok nx)
    (hw : pyGet widths indx = .ok (some w)) (hfit : s + w ≤ nx)
    (hfmt : strip c.format.toList = ch :: rest) (hconv : asciiConv? ch = some cv)
    (hwp : widthPrec? rest = some (fw, p)) :
    asciiWrite c loc loc widths indx raw dummy st =
      asciiWriteRows raw (fun e => (fun x => pad ((ch :: rest).contains 'A') fw x ++
        blanks (nx - w - s).toNat) <$> pyFormat cv p e) (nx - s) w 0 dummy st := by
  have htrail : ¬ nx - w < s := by omega
  simp only [String.toList] at hfmt
  simp [asciiWrite, hs, hn, hw, htrail, hfmt, hconv, hwp, bind_discarded_read]

end Write

example : pyFormat 'E' (some 4) (.num (.float (.fin 1 0))) = .ok "1.0000E+00".toList := rfl

/-- When every value's rendering fits the span and is kept by the field's dtype, the rows are
written in order and nothing is raised. -/
theorem asciiWriteRows_ok (raw : View) (render : Elem → Except PyError (List Char)) (span : Int)
    (width : Nat) {es : List Elem} (xs : List (List Char))
    (h : List.Forall₂ (fun e x => render e = .ok x ∧ (x.length : Int) ≤ span ∧
      raw.dtype.cast (.text x) = .ok (.text x)) es xs) :
    ∀ (i : Nat) (st : Store), i + es.length ≤ raw.len →
      asciiWriteRows raw render span width i es st = .ok () (st.writeFrom raw i (xs.map .text)) := by
  induction h with
  | nil => intro i st _; rfl
  | @cons e x es xs hx _ ih =>
    intro i st hlen
    have hi : npIndex raw.len i = .ok i := by
      simp only [npIndex]
      rw [if_pos (by simp only [List.length_cons] at hlen; omega)]
      rfl
    have hnot : ¬ (x.length : Int) > span := by omega
    simp only [List.length_cons] at hlen
    simp [asciiWriteRows, hx.1, hx.2.2, hnot, View.setItem, hi, bind, EStateM.bind,
      ih (i + 1) _ (by omega), Store.writeFrom]

end PyFits.AsciiLayout
