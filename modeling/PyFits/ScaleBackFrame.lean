import PyFits.AsciiLayout

/-!
# What `_scale_back` changes

`_scale_back` of a table writes only the raw fields of its materialized columns (those whose
`_convert` slot is filled), sets the table's `_heapsize`, and in an ASCII table appends the end
of the last field to `_coldefs.starts`. It reads the cache and never writes it, and leaves every
other object alone. The frame of the loop over the columns is stated once, as a predicate on the
stores the loop passes through, and every step of the loop is shown to keep it.

Appending to `starts` changes the descriptor set, and does so again on every call: the table's
`starts` gains one entry per call.
-/

namespace PyFits.ScaleBackFrame

/-- Field `b` of the rows of table `self` in `st` belongs to a column whose slot is filled. -/
def Materialized (st : Store) (self : Nat) (b : Base) : Prop :=
  ∃ indx, b = .field (st.recs self).buf indx ∧ (st.conv (st.recs self).convert indx).isSome

/-- What the loop of `_scale_back` over the columns of table `t` may change, from the store
`st0` it starts on: the memory at the positions `W` and the table's `_heapsize`. The loop as a
whole writes the raw fields of the materialized columns; one turn writes only the rows of its
own, and only when `writesRaw` says that its branch writes. -/
structure ColumnsFrame (t : Nat) (W : Base → Int → Prop) (st0 st : Store) : Prop where
  conv : st.conv = st0.conv
  files : st.files = st0.files
  next : st.next = st0.next
  tnull : st.asciiTNull = st0.asciiTNull
  others : ∀ r, r ≠ t → st.recs r = st0.recs r
  table : { st.recs t with heapsize := 0 } = { st0.recs t with heapsize := 0 }
  mem : ∀ b p, st.mem b p ≠ st0.mem b p → W b p

section Frame

variable {self : Nat} {W : Base → Int → Prop} {st0 st : Store}

theorem ColumnsFrame.refl (self : Nat) (W : Base → Int → Prop) (st : Store) : ColumnsFrame self W st st :=
  ⟨rfl, rfl, rfl, rfl, fun _ _ => rfl, rfl, fun _ _ h => absurd rfl h⟩

theorem ColumnsFrame.buf (h : ColumnsFrame self W st0 st) : (st.recs self).buf = (st0.recs self).buf := by
  have hb := congrArg FitsRec.buf h.table
  exact hb

theorem ColumnsFrame.convert (h : ColumnsFrame self W st0 st) :
    (st.recs self).convert = (st0.recs self).convert := by
  have hc := congrArg FitsRec.convert h.table
  exact hc

theorem ColumnsFrame.coldefs (h : ColumnsFrame self W st0 st) :
    (st.recs self).coldefs = (st0.recs self).coldefs := by
  have hc := congrArg FitsRec.coldefs h.table
  exact hc

theorem ColumnsFrame.len (h : ColumnsFrame self W st0 st) : (st.recs self).len = (st0.recs self).len := by
  have hl := congrArg FitsRec.len h.table
  exact hl

theorem ColumnsFrame.rawField (h : ColumnsFrame self W st0 st) :
    (st.recs self).rawField = (st0.recs self).rawField := by
  have hr := congrArg FitsRec.rawField h.table
  exact hr

/-- Memory outside `W` is as it was. -/
theorem ColumnsFrame.mem_eq (h : ColumnsFrame self W st0 st) {b : Base} {p : Int} (hb : ¬ W b p) :
    st.mem b p = st0.mem b p :=
  Classical.byContradiction fun hne => hb (h.mem b p hne)

theorem ColumnsFrame.read_eq (h : ColumnsFrame self W st0 st) {v : View} (hv : ∀ i < v.len, ¬ W v.base (v.pos i)) :
    st.read v = st0.read v := by
  simp only [Store.read]
  exact List.map_congr_left fun i hi => h.mem_eq (hv i (List.mem_range.mp hi))

theorem ColumnsFrame.write (h : ColumnsFrame self W st0 st) {b : Base} {p : Int} (hb : W b p)
    (x : Elem) : ColumnsFrame self W st0 (st.write b p x) where
  conv := h.conv
  files := h.files
  next := h.next
  tnull := h.tnull
  others := h.others
  table := h.table
  mem b' p' hne := by
    rw [Store.write_mem] at hne
    split at hne
    · next hbp => exact hbp.1 ▸ hbp.2 ▸ hb
    · exact h.mem b' p' hne

theorem ColumnsFrame.writeFrom (h : ColumnsFrame self W st0 st) {v : View} (i : Nat) (xs : List Elem)
    (hv : ∀ k < xs.length, W v.base (v.pos ((i + k : Nat) : Int))) :
    ColumnsFrame self W st0 (st.writeFrom v i xs) := by
  induction xs generalizing st i with
  | nil => exact h
  | cons x xs ih =>
    refine ih (h.write (by simpa using hv 0 (by simp)) x) (i + 1) fun k hk => ?_
    rw [show i + 1 + k = i + (k + 1) by omega]
    exact hv (k + 1) (by simp only [List.length_cons]; omega)

theorem ColumnsFrame.setRec (h : ColumnsFrame self W st0 st) {r : FitsRec}
    (hr : { r with heapsize := 0 } = { st0.recs self with heapsize := 0 }) :
    ColumnsFrame self W st0 { st with recs := setAt st.recs self r } where
  conv := h.conv
  files := h.files
  next := h.next
  tnull := h.tnull
  others r' hne := by simp only [setAt_ne _ _ hne, h.others r' hne]
  table := by simp only [setAt_same]; exact hr
  mem := h.mem

end Frame

/-! ## A logic of the branches

Every branch of a turn of `_scale_back`'s loop is returns, raises, reads of the table, reads whose
value is dropped, and writes into the column's raw field, in sequence and under conditions. So a
logic of triples `G P Q m` with rules for the first four and for sequencing gives a triple for a
whole branch from triples for its writes. The walk through the branches is made once here, for
any such logic: what the loop keeps (`Stays`) is one instance, and the agreement of two runs of
the loop (`ScaleBackOblivious.Sim`) another. -/

/-- The rules of a logic of triples `G P Q m` over methods that read table `tab`. -/
structure Rules (tab : Nat) {ι : Type} (G : ι → ι → {α : Type} → M α → Prop) : Prop where
  pure : ∀ {α : Type} (P : ι) (a : α), G P P (pure a)
  throw : ∀ {α : Type} (P Q : ι) (e : PyError), G P Q (throw e : M α)
  liftExcept : ∀ {α : Type} (P : ι) (x : Except PyError α), G P P (liftExcept x)
  getRec : ∀ P : ι, G P P (getRec tab)
  readDiscard : ∀ {β : Type} {P Q : ι} (v : View) {m : M β}, G P Q m → G P Q (readView v >>= fun _ => m)
  bind : ∀ {α β : Type} {P Q R : ι} {m : M α} {k : α → M β}, G P Q m → (∀ a, G Q R (k a)) → G P R (m >>= k)

namespace Rules

variable {self : Nat} {ι : Type} {G : ι → ι → {α : Type} → M α → Prop} (h : Rules self G)
  {α β : Type} {P Q : ι}

omit h in
theorem ite {c : Prop} [Decidable c] {a b : M α} (ha : G P Q a) (hb : G P Q b) : G P Q (if c then a else b) := by
  split
  exacts [ha, hb]

include h

/-- `bind` with the middle assertion given first, for the walks below. -/
theorem bind_via {R : ι} (Q : ι) {m : M α} {k : α → M β} (hm : G P Q m) (hk : ∀ a, G Q R (k a)) :
    G P R (m >>= k) :=
  h.bind hm hk

theorem throw_bind (e : PyError) (k : α → M β) : G P Q (MonadExcept.throw e >>= k) := by
  rw [PyFits.throw_bind]
  exact h.throw P Q e

theorem map (f : α → β) {m : M α} (hm : G P Q m) : G P Q (f <$> m) := by
  rw [← bind_pure_comp]
  exact h.bind hm fun a => h.pure Q (f a)

section Branches

variable {v : View}

theorem writeRows (P : ι) (hitem : ∀ i x, G P P (v.setItem i x)) (render : Elem → Except PyError (List Char))
    (span : Int) (width : Nat) : ∀ (i : Nat) (es : List Elem), G P P (asciiWriteRows v render span width i es)
  | _, [] => h.pure P ()
  | i, e :: es => by
    unfold asciiWriteRows
    dsimp only
    repeat' (first
      | with_reducible exact h.liftExcept _ _ | with_reducible exact h.pure _ _
      | with_reducible exact h.throw_bind _ _ | with_reducible exact hitem _ _
      | with_reducible exact writeRows P hitem render span width (i + 1) es
      | with_reducible refine Rules.ite ?_ ?_
      | refine h.bind_via P ?_ fun _ => ?_)

theorem wrapx (P : ι) (hall : ∀ xs, G P P (v.setAll xs)) (conv : List Elem) (nx : Nat) :
    G P P (wrapxColumn conv nx v) :=
  h.bind (hall _) fun _ => h.bind (h.liftExcept P _) fun _ => hall _

theorem binaryBranch (P : ι) (hall : ∀ xs, G P P (v.setAll xs)) (fmt : RecFormat) (dummy : List Elem) :
    G P P (binaryWrite fmt v dummy) := by
  unfold binaryWrite
  dsimp only
  repeat' (first
    | with_reducible exact h.liftExcept _ _ | with_reducible exact h.pure _ _
    | with_reducible exact h.throw_bind _ _ | with_reducible exact hall _
    | with_reducible refine Rules.ite ?_ ?_
    | refine h.bind_via P ?_ fun _ => ?_)

/-- The ASCII branch: its checks are returns and raises, then the loop over the rows, then a read
whose value is dropped. -/
theorem asciiBranch {dummy : List Elem}
    (hrows : ∀ render span width, G P Q (asciiWriteRows v render span width 0 dummy))
    (c : Column) (starts loc : List Int) (widths : List (Option Nat)) (indx : Nat) :
    G P Q (asciiWrite c starts loc widths indx v dummy) := by
  unfold asciiWrite
  dsimp only
  repeat' (first
    | with_reducible exact h.liftExcept _ _ | with_reducible exact h.pure _ _
    | with_reducible exact h.throw_bind _ _ | with_reducible exact h.throw _ _ _
    | with_reducible exact hrows _ _ _
    | with_reducible refine h.readDiscard _ ?_ | with_reducible refine Rules.ite ?_ ?_
    | refine h.bind_via ?_ ?_ fun _ => ?_
    | split)

/-- The branches after the `P` branch, from the writes into the raw field. -/
theorem valuesBranch (P : ι) {r : FitsRec} {indx : Nat} (hall : ∀ xs, G P P ((r.rawField indx).setAll xs))
    (hitem : ∀ i x, G P P ((r.rawField indx).setItem i x)) (loc : List Int) (widths : List (Option Nat))
    (conv : List Elem) (sf : ScaleFactors) : G P P (scaleBackValues self r loc widths indx conv sf) := by
  unfold scaleBackValues
  dsimp only
  repeat' (first
    | with_reducible exact h.liftExcept _ _ | with_reducible exact h.pure _ _
    | with_reducible exact h.throw_bind _ _ | with_reducible exact h.getRec _
    | with_reducible exact hall _
    | with_reducible exact h.asciiBranch (fun _ _ _ => h.writeRows P hitem _ _ _ 0 _) _ _ _ _ _
    | with_reducible exact h.binaryBranch P hall _ _
    | with_reducible refine h.map _ ?_ | with_reducible refine Rules.ite ?_ ?_
    | refine h.bind_via P ?_ fun _ => ?_
    | split)

end Branches

end Rules

/-- What a method keeps is a logic of the branches. -/
theorem rules_stays (self : Nat) (I : Store → Prop) : Rules self (fun (_ _ : Unit) {_ : Type} m => Stays I m) where
  pure _ := stays_pure
  throw _ _ := stays_throw
  liftExcept _ := stays_liftExcept
  getRec _ := stays_getRec self
  readDiscard := fun {_} {_} {_} v {_} hm => stays_bind (stays_readView v) fun _ _ _ _ _ => hm
  bind hm hk := stays_bind hm fun _ a _ _ _ => hk a

/-! ## The steps of the loop -/

section Steps

variable {self : Nat} {W : Base → Int → Prop} {st0 : Store} {v : View}

theorem stays_setAll (hv : ∀ j < v.len, W v.base (v.pos j)) (xs : List Elem) :
    Stays (ColumnsFrame self W st0) (v.setAll xs) :=
  stays_bind (stays_liftExcept _) fun _ ys _ _ hb _ hst =>
    hst.writeFrom 0 ys fun k hk => by
      rw [Nat.zero_add]
      cases hys : broadcast v.len xs with
      | error e => rw [hys] at hb; cases hb
      | ok zs =>
        rw [hys] at hb
        simp only [liftExcept_ok, pure_apply, EStateM.Result.ok.injEq] at hb
        exact hv k (by rw [← broadcast_length hys, hb.1]; exact hk)

theorem stays_setItem (hv : ∀ j < v.len, W v.base (v.pos j)) (i : Int) (x : Elem) :
    Stays (ColumnsFrame self W st0) (v.setItem i x) := by
  intro st hst
  unfold final View.setItem
  cases hj : npIndex v.len i with
  | error e => exact hst
  | ok j =>
    dsimp only
    cases v.dtype.cast x with
    | error e => exact hst
    | ok y => exact hst.write (hv _ (npIndex_lt hj)) y

theorem stays_getRec_bind {β : Type} {k : FitsRec → M β}
    (h : ∀ r, { r with heapsize := 0 } = { st0.recs self with heapsize := 0 } →
      Stays (ColumnsFrame self W st0) (k r)) :
    Stays (ColumnsFrame self W st0) (getRec self >>= k) :=
  stays_bind (stays_getRec self) fun _ _ _ hst hr => by
    rw [(getRec_ok hr).1]
    exact h _ hst.table

theorem stays_setRec_heapsize {r : FitsRec}
    (hr : { r with heapsize := 0 } = { st0.recs self with heapsize := 0 }) (n : Int) :
    Stays (ColumnsFrame self W st0) (setRec self { r with heapsize := n }) :=
  fun _ hst => hst.setRec hr

theorem stays_scaleBackP (hv : ∀ j < v.len, W v.base (v.pos j)) (conv : List Elem) (dt : String) :
    Stays (ColumnsFrame self W st0) (scaleBackP self conv dt v) := by
  unfold scaleBackP
  refine stays_bind (stays_setAll hv _) fun _ _ _ _ _ => stays_bind (stays_liftExcept _) fun _ _ _ _ _ => ?_
  dsimp only
  split
  · exact stays_throw_bind _ _
  · rw [pure_bind]
    exact stays_bind (stays_setAll hv _) fun _ _ _ _ _ => stays_bind (stays_liftExcept _) fun _ _ _ _ _ =>
      stays_getRec_bind fun _ hr => stays_bind (stays_setAll hv _) fun _ _ _ _ _ => stays_setRec_heapsize hr _

/-- Whether the turn of `_scale_back` for column `indx`, when the column's slot is filled,
writes the raw field: an `X` or a `P` column, a scaled numeric column, a numeric or string
column of an ASCII table, or a logical column. -/
def writesRaw (cd : ColDefs) (indx : Nat) : Bool :=
  match (cd.col indx).recformat, getScaleFactors cd indx with
  | .x _, _ => true
  | _, .error _ => false
  | .p _, .ok _ => true
  | .plain _, .ok sf => if sf.number || sf.str then (sf.number && (sf.scale || sf.zero)) || cd.isAscii else sf.bool

/-- A turn whose branch does not write the raw field changes nothing, whether it returns or
raises. -/
theorem scaleBackColumn_no_write (loc : List Int) (widths : List (Option Nat)) (indx : Nat) (st : Store)
    (hw : writesRaw (st.recs self).coldefs indx = false) :
    final (scaleBackColumn self loc widths indx) st = st := by
  simp only [scaleBackColumn, final_bind_ok (getRec_apply st self), final_bind_ok (getConv_apply st _ indx)]
  cases st.conv (st.recs self).convert indx with
  | none => rfl
  | some cv =>
    dsimp only
    rw [final_bind_ok (readView_apply st cv)]
    cases hrf : ((st.recs self).coldefs.col indx).recformat with
    | x nx => simp [writesRaw, hrf] at hw
    | p dt =>
      cases hsf : getScaleFactors (st.recs self).coldefs indx with
      | error e => simp only [hrf, hsf, liftExcept_error_bind, final, throw_apply]
      | ok sf => simp [writesRaw, hrf, hsf] at hw
    | plain spec =>
      cases hsf : getScaleFactors (st.recs self).coldefs indx with
      | error e => simp only [hrf, hsf, liftExcept_error_bind, final, throw_apply]
      | ok sf =>
        simp only [writesRaw, hrf, hsf] at hw
        simp only [hrf, hsf, liftExcept_ok_bind, pure_bind, scaleBackValues]
        cases hn : (sf.number || sf.str) <;>
          simp only [hn, if_true, if_false, Bool.false_eq_true, Bool.or_eq_false_iff] at hw ⊢
        · simp only [hw, Bool.false_eq_true, if_false]
          rfl
        · simp only [hw.1, hw.2, Bool.false_eq_true, if_false]
          rfl

/-- One turn of the loop writes only the rows of the raw field of its column, and only when the
column's slot is filled and its branch writes. -/
theorem stays_scaleBackColumn (loc : List Int) (widths : List (Option Nat)) (indx : Nat)
    (hW : ∀ cv, st0.conv (st0.recs self).convert indx = some cv → writesRaw (st0.recs self).coldefs indx →
      ∀ j < (st0.recs self).len, W (.field (st0.recs self).buf indx) (((st0.recs self).rawField indx).pos j)) :
    Stays (ColumnsFrame self W st0) (scaleBackColumn self loc widths indx) := by
  intro st hst
  cases hw : writesRaw (st0.recs self).coldefs indx
  · rw [scaleBackColumn_no_write loc widths indx st (by rw [hst.coldefs]; exact hw)]
    exact hst
  revert st
  unfold scaleBackColumn
  refine stays_bind (stays_getRec self) fun st _ _ hst hr => ?_
  obtain ⟨rfl, -⟩ := getRec_ok hr
  refine stays_bind (stays_getConv _ _) fun st' _ _ hst' hc => ?_
  obtain ⟨rfl, -⟩ := getConv_ok hc
  split
  · exact stays_pure ()
  · next cv hcv =>
    rw [hst'.conv, hst.convert] at hcv
    have hv : ∀ j < ((st.recs self).rawField indx).len,
        W ((st.recs self).rawField indx).base (((st.recs self).rawField indx).pos j) := by
      rw [hst.rawField]
      exact hW cv hcv hw
    refine stays_bind (stays_readView _) fun _ conv _ _ _ => ?_
    dsimp only
    split
    · exact (rules_stays self _).wrapx () (stays_setAll hv) _ _
    · have hvals := (rules_stays self (ColumnsFrame self W st0)).valuesBranch () (stays_setAll hv) (stays_setItem hv)
        loc widths conv
      refine stays_bind (stays_liftExcept _) fun _ sf _ _ _ => ?_
      split
      · exact stays_bind (stays_scaleBackP hv _ _) fun _ _ _ _ _ => hvals sf
      · exact stays_bind (stays_pure ()) fun _ _ _ _ _ => hvals sf

end Steps

/-! ## The whole call -/

/-- What `_scale_back` of table `t` changes, from the store `st` it starts on to the store `st'`
it leaves: the raw fields of the materialized columns, the table's `_heapsize`, and, in an
ASCII table, one entry appended to the `starts` of its `ColDefs` object, which every table
holding that object sees. -/
structure ScaleBackEffect (t : Nat) (st st' : Store) : Prop where
  conv : st'.conv = st.conv
  files : st'.files = st.files
  next : st'.next = st.next
  tnull : st'.asciiTNull = st.asciiTNull
  table : ∃ (n : Int) (e : List Int), e.length ≤ 1 ∧ ((st.recs t).coldefs.isAscii = false → e = []) ∧
    st'.recs t = { withStarts (st.recs t) e with heapsize := n } ∧
    ∀ r, r ≠ t → st'.recs r =
      if e ≠ [] ∧ (st.recs r).cdId = (st.recs t).cdId then
        { st.recs r with coldefs := (withStarts (st.recs t) e).coldefs }
      else st.recs r
  mem : ∀ b p, st'.mem b p ≠ st.mem b p → Materialized st t b

theorem eq_of_heapsize_zero {a b : FitsRec}
    (h : { a with heapsize := 0 } = { b with heapsize := 0 }) : a = { b with heapsize := a.heapsize } := by
  cases a
  cases b
  simp only [FitsRec.mk.injEq, and_true] at h ⊢
  exact h

theorem fields_of_heapsize_zero {a b : FitsRec} (h : { a with heapsize := 0 } = { b with heapsize := 0 }) :
    a.convert = b.convert ∧ a.coldefs = b.coldefs ∧ a.rawField = b.rawField := by
  cases a
  cases b
  simp only [FitsRec.mk.injEq, and_true] at h
  obtain ⟨rfl, rfl, rfl, rfl, rfl, rfl, -⟩ := h
  exact ⟨rfl, rfl, rfl⟩

/-- The layout step appends at most one entry to `starts`, and none in a binary table. -/
theorem layout_appends (t : Nat) (st : Store) :
    ∃ e : List Int, e.length ≤ 1 ∧ ((st.recs t).coldefs.isAscii = false → e = []) ∧
      final (if (st.recs t).coldefs.isAscii then asciiLayout t else pure ([], [])) st =
        appendStarts st t e := by
  cases ha : (st.recs t).coldefs.isAscii
  · exact ⟨[], Nat.zero_le _, fun _ => rfl, rfl⟩
  · simp only [if_true]
    match h : asciiLayout t st with
    | .ok (loc, widths) st' =>
      obtain ⟨rfl, rfl, -⟩ := AsciiLayout.asciiLayout_ok h
      exact ⟨[_], le_refl _, by simp, by rw [final_ok h]⟩
    | .error err st' =>
      exact ⟨[], Nat.zero_le _, fun _ => rfl, by rw [final_error h, AsciiLayout.asciiLayout_error h, appendStarts_nil]⟩

/-- The records once `e` is appended to the `starts` of `t`'s `ColDefs` object. -/
theorem appendStarts_recs (st : Store) (t r : Nat) (e : List Int) :
    (appendStarts st t e).recs r =
      if e ≠ [] ∧ (st.recs r).cdId = (st.recs t).cdId then
        { st.recs r with coldefs := (withStarts (st.recs t) e).coldefs }
      else st.recs r := by
  unfold appendStarts
  by_cases he : e = []
  · simp [he]
  · by_cases hc : (st.recs r).cdId = (st.recs t).cdId <;> simp [he, hc, Store.setColDefs]

theorem ScaleBackEffect.of_columns {t : Nat} {st st2 : Store} {e : List Int} (he : e.length ≤ 1)
    (ha : (st.recs t).coldefs.isAscii = false → e = [])
    (h : ColumnsFrame t (fun b _ => Materialized (appendStarts st t e) t b) (appendStarts st t e) st2) :
    ScaleBackEffect t st st2 where
  conv := by rw [h.conv, appendStarts_conv]
  files := by rw [h.files, appendStarts_files]
  next := by rw [h.next, appendStarts_next]
  tnull := by rw [h.tnull, appendStarts_asciiTNull]
  table := ⟨_, e, he, ha, by
    have ht := eq_of_heapsize_zero h.table
    simpa using ht, fun r hr => by rw [h.others r hr, appendStarts_recs]⟩
  mem b p hne := by
    obtain ⟨indx, hb, hc⟩ := h.mem b p (by simpa using hne)
    exact ⟨indx, by simpa using hb, by simpa using hc⟩

/-- `_scale_back` writes only the raw fields of the materialized columns, sets `_heapsize`,
appends at most one entry to the `starts` of the table's `ColDefs` object (none in a binary
table), which the tables holding that object see, and changes no cache slot and no other object,
whether it returns or raises. -/
theorem scaleBack_effect (t : Nat) (st : Store) :
    ScaleBackEffect t st (final (FitsRec.scaleBack t) st) := by
  obtain ⟨e, he, ha, hlay⟩ := layout_appends t st
  refine ScaleBackEffect.of_columns he ha ?_
  rw [← hlay, FitsRec.scaleBack, final_bind_ok (getRec_apply st t)]
  simp only []
  split <;>
  exact final_bind_of_stays (ColumnsFrame.refl _ _ _) fun y =>
    stays_getRec_bind fun _ hr => stays_bind (stays_setRec_heapsize hr 0) fun _ _ _ _ _ =>
      stays_forM fun i _ => stays_scaleBackColumn y.1 y.2 i fun _ hc _ _ _ => ⟨i, rfl, by rw [hc]; rfl⟩

/-- An ASCII table of one row and one `I2` column starting at character 1, nothing read. -/
def asciiOneColumn : Store :=
  Store.ofTable "TableHDU" [⟨"a", "I2", .plain "a2", none, none, ""⟩] [1] [[.text "12".toList]] []

/-- One `_scale_back` turns `starts = [1]` into `[1, 3]`, and a second one into `[1, 3, 5]`. -/
theorem scale_back_grows_starts :
    ((final (FitsRec.scaleBack 0) asciiOneColumn).recs 0).coldefs.starts = [1, 3] ∧
    ((final (FitsRec.scaleBack 0) (final (FitsRec.scaleBack 0) asciiOneColumn)).recs 0).coldefs.starts =
      [1, 3, 5] := by
  decide

/-- A copy holds the `ColDefs` object of its table, so `_scale_back` of the table grows the copy's
`starts` too. -/
example : ((final (FitsRec.scaleBack 0) (final (FitsRec.copy 0) asciiOneColumn)).recs 2).coldefs.starts = [1, 3] := by
  decide

end PyFits.ScaleBackFrame
