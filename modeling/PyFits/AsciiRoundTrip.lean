import PyFits.AsciiNull

/-!
# Reading and saving an integer column of an ASCII table

An unscaled `Iw` column is read by `field` with `int()` of each cell's text and written back by
`_scale_back` with `'%wd'`, followed by blanks up to the next column. When every cell is that
canonical rendering of an int32 that does not spell the null sentinel, `field` followed by
`_scale_back` writes every cell back byte for byte: the turn of the loop for the column prints
each value into the cell it was read from (or raises on an overlap before writing), and every
other turn writes only its own column. This holds whatever the other columns hold, and whether
`_scale_back` returns or raises.

A null cell does not survive the cycle: `field` reads it as `ASCIITNULL`, and `_scale_back` only
ever prints numbers, so it comes back as the printed `ASCIITNULL`, not as the sentinel.
-/

namespace PyFits.AsciiRoundTrip

open ScaleBackFrame

/-- The text `_scale_back` prints for the integer `n` in an `Iw` column: `str(n)`
right-justified in `w` characters, then `trail` blanks up to the next column. -/
def canonicalCell (w trail : Nat) (n : Int) : List Char := pad false w (showInt n) ++ blanks trail

theorem canonicalCell_length (trail : Nat) {w : Nat} {n : Int} (hw : (showInt n).length ≤ w) :
    (canonicalCell w trail n).length = w + trail := by
  simp [canonicalCell, hw]

theorem showNat_isDigit (w : Nat) : ∀ c ∈ showNat w, c.isDigit = true :=
  fun c hc => List.all_eq_true.mp (showNat_digits w).2.1 c hc

theorem strip_format (w : Nat) : strip ('I' :: showNat w) = 'I' :: showNat w := by
  have h : strip (blanks 0 ++ ('I' :: showNat w) ++ blanks 0) = 'I' :: showNat w :=
    strip_blanks 0 0 (List.cons_ne_nil _ _) (by simp [isSpace]) ?_
  · simpa using h
  · obtain ⟨x, hx⟩ : ∃ x, (showNat w).getLast? = some x :=
      Option.isSome_iff_exists.mp (List.getLast?_isSome.mpr (showNat_digits w).1)
    simpa [List.getLast?_cons, hx] using (showNat_ends w).2 x hx

theorem spanDigits_showNat (w : Nat) : spanDigits (showNat w) = (showNat w, []) := by
  simp only [spanDigits, List.takeWhile_eq_self_iff.mpr (showNat_isDigit w),
    List.dropWhile_eq_nil_iff.mpr (showNat_isDigit w)]

theorem widthPrec_showNat (w : Nat) : widthPrec? (showNat w) = some (w, none) := by
  simp [widthPrec?, spanDigits_showNat, (showNat_digits w).2.2]

theorem convertAsciiFormat_I {format : String} {w : Nat} (h : format.toList = 'I' :: showNat w) :
    convertAsciiFormat format = .ok (some w) := by
  unfold convertAsciiFormat
  rw [h, strip_format]
  simp [spanDigits_showNat, (showNat_digits w).1, (showNat_digits w).2.2]

theorem format_contains_A (w : Nat) : ('I' :: showNat w).contains 'A' = false := by
  have h : 'A' ∉ showNat w := fun h => by simpa using showNat_isDigit w 'A' h
  simpa [List.contains] using h

theorem fmtInt_none (i : Int) : fmtInt none i = showInt i := by
  simp [fmtInt, showInt]

theorem not_mem_canonicalCell {ch : Char} (hs : ch ≠ ' ') (hm : ch ≠ '-') (hd : ch.isDigit = false)
    (w trail : Nat) (n : Int) : ch ∉ canonicalCell w trail n := by
  intro h
  simp only [canonicalCell, pad, Bool.false_eq_true, if_false, List.mem_append, blanks,
    List.mem_replicate] at h
  rcases h with (⟨-, rfl⟩ | h) | ⟨-, rfl⟩
  · exact hs rfl
  · rcases showInt_chars n ch h with rfl | h
    · exact hm rfl
    · simp [h] at hd
  · exact hs rfl

/-- A canonical cell of an int32 that is not the sentinel reads as that integer. -/
theorem decodeAsciiCell_canonical {nullval : List Char} (tnull : Int) (w trail : Nat) {n : Int}
    (hn : -(2 : Int) ^ 31 ≤ n ∧ n < 2 ^ 31) (hnull : showInt n ≠ nullval) :
    decodeAsciiCell (.int 4) nullval tnull (.text (canonicalCell w trail n)) = .ok (.num (.int n)) := by
  have hD : 'D' ∉ canonicalCell w trail n := not_mem_canonicalCell (by decide) (by decide) (by decide) w trail n
  have hcell : canonicalCell w trail n = blanks (w - (showInt n).length) ++ showInt n ++ blanks trail := by
    simp [canonicalCell, pad]
  simp only [decodeAsciiCell, AsciiNull.replace_D_of_not_mem hD]
  rw [hcell, strip_showInt, if_neg hnull, AsciiNull.parseAscii_showInt _ _ hn]
  rfl

/-- The character after the field of column `indx`: the next column's start, or for the last
column its start plus its field's itemsize. -/
def fieldEnd (cd : ColDefs) (indx : Nat) : Int :=
  match cd.starts.get? (indx + 1) with
  | some nx => nx
  | none => cd.starts.getD indx 0 + ((cd.col indx).recformat.fieldType.itemsize : Int)

/-- The blanks after an `Iw` value in column `indx`, up to the end of its field. -/
def trailingBlanks (cd : ColDefs) (indx w : Nat) : Nat := (fieldEnd cd indx - cd.starts.getD indx 0 - w).toNat

/-- Column `c` of table `t` is an unscaled `Iw` column of an ASCII table, not read yet, whose
cells are the canonical renderings of the int32 values `ns`, none of them the sentinel, in a
string field wide enough to hold them. -/
structure CanonicalIntColumn (st : Store) (t c w : Nat) (ns : List Int) : Prop where
  ascii : (st.recs t).coldefs.isAscii = true
  starts : (st.recs t).coldefs.starts.length = (st.recs t).nfields
  lt : c < (st.recs t).nfields
  format : ((st.recs t).coldefs.col c).format.toList = 'I' :: showNat w
  plain : ∃ spec, ((st.recs t).coldefs.col c).recformat = .plain spec
  str : ∃ n, ((st.recs t).coldefs.col c).recformat.fieldType = .str n ∧
    w + trailingBlanks (st.recs t).coldefs c w ≤ n
  bscale : ((st.recs t).coldefs.col c).bscale = none
  bzero : ((st.recs t).coldefs.col c).bzero = none
  slot : st.conv (st.recs t).convert c = none
  len : ns.length = (st.recs t).len
  int32 : ∀ n ∈ ns, -(2 : Int) ^ 31 ≤ n ∧ n < 2 ^ 31
  width : ∀ n ∈ ns, (showInt n).length ≤ w
  notNull : ∀ n ∈ ns, showInt n ≠ strip ((st.recs t).coldefs.col c).null.toList
  cells : ∀ i < (st.recs t).len, st.mem (.field (st.recs t).buf c) (((st.recs t).rawField c).pos i) =
    .text (canonicalCell w (trailingBlanks (st.recs t).coldefs c w) (ns.getD i 0))

section Column

variable {st : Store} {t c w : Nat} {ns : List Int}

theorem CanonicalIntColumn.read_raw (h : CanonicalIntColumn st t c w ns) :
    st.read ((st.recs t).rawField c) =
      ns.map fun n => .text (canonicalCell w (trailingBlanks (st.recs t).coldefs c w) n) := by
  refine List.ext_getElem (by simp [Store.read, h.len]) fun i h1 h2 => ?_
  have hi : i < (st.recs t).len := by simpa [Store.read] using h1
  have hn : i < ns.length := h.len ▸ hi
  simp only [Store.read, List.getElem_map, List.getElem_range, FitsRec.rawField_base, h.cells i hi,
    List.getD_eq_getElem?_getD, List.getElem?_eq_getElem hn, Option.getD_some]

theorem CanonicalIntColumn.asciiInt (h : CanonicalIntColumn st t c w ns) : AsciiNull.AsciiIntColumn st t c :=
  ⟨h.ascii, h.lt, by rw [h.format]; rfl, h.plain, h.bscale, h.bzero, h.slot⟩

theorem CanonicalIntColumn.decode (h : CanonicalIntColumn st t c w ns) (tnull : Int) :
    decodeAscii ((st.recs t).coldefs.col c) tnull (st.read ((st.recs t).rawField c)) =
      .ok (ns.map fun n => .num (.int n)) := by
  rw [h.read_raw]
  simp only [decodeAscii, h.format, show asciiNumKind? 'I' = some (.int 4) from rfl, pure_bind]
  refine except_mapM_of_forall₂ ?_
  simp only [List.forall₂_map_left_iff, List.forall₂_map_right_iff, List.forall₂_same]
  exact fun n hn => decodeAsciiCell_canonical tnull w _ (h.int32 n hn) (h.notNull n hn)

/-- The array `field` makes for the column: a fresh object holding one value per row. -/
def fieldArray (st : Store) (t : Nat) : View := AsciiNull.fieldArray st (st.recs t).len

/-- `field(c)` parses the column into a fresh array, caches it, and changes nothing else. -/
theorem CanonicalIntColumn.field (h : CanonicalIntColumn st t c w ns) :
    ∃ st1, FitsRec.field t (.pos c) st = .ok (fieldArray st t) st1 ∧ st1.recs = st.recs ∧
      st1.conv (st.recs t).convert c = some (fieldArray st t) ∧
      st1.read (fieldArray st t) = ns.map (fun n => .num (.int n)) ∧
      ∀ b, b ≠ .arr st.next → st1.mem b = st.mem b := by
  have hf := h.asciiInt.field (h.decode st.asciiTNull)
  rwa [List.length_map, h.len] at hf

end Column

/-! ## `_loc` and `_width` -/

theorem pyGet_of_lt {α : Type} {xs : List α} {i : Nat} (h : i < xs.length) : pyGet xs i = .ok xs[i] := by
  simp [pyGet, pyIndex_of_lt h, bind, Except.bind, List.getElem?_eq_getElem h, pure, Except.pure]

/-- The end of the last field, which the layout step appends to `starts`. -/
def lastEnd (cd : ColDefs) : Int :=
  cd.starts.getLast?.getD 0 + ((cd.col (cd.columns.length - 1)).recformat.fieldType.itemsize : Int)

section Loc

variable {cd : ColDefs} {c : Nat}

theorem loc_get (hn : cd.starts.length = cd.columns.length) (hc : c < cd.columns.length) :
    pyGet (cd.starts ++ [lastEnd cd]) c = .ok (cd.starts.getD c 0) := by
  have hc' : c < cd.starts.length := hn ▸ hc
  rw [pyGet_of_lt (by simp; omega), List.getElem_append_left hc', List.getD_eq_getElem?_getD,
    List.getElem?_eq_getElem hc', Option.getD_some]

theorem loc_get_next (hn : cd.starts.length = cd.columns.length) (hc : c < cd.columns.length) :
    pyGet (cd.starts ++ [lastEnd cd]) (c + 1) = .ok (fieldEnd cd c) := by
  have hlt : c + 1 < (cd.starts ++ [lastEnd cd]).length := by simp; omega
  have h : pyGet (cd.starts ++ [lastEnd cd]) ((c + 1 : Nat) : Int) = .ok (cd.starts ++ [lastEnd cd])[c + 1] :=
    pyGet_of_lt hlt
  simp only [Nat.cast_add, Nat.cast_one] at h
  rw [h]
  by_cases hlt : c + 1 < cd.starts.length
  · simp [List.getElem_append_left hlt, fieldEnd, List.getElem?_eq_getElem hlt]
  · have he : c + 1 = cd.starts.length := by omega
    have hlast : cd.starts.getLast? = some (cd.starts.getD c 0) := by
      rw [List.getLast?_eq_getElem?, show cd.starts.length - 1 = c by omega, List.getD_eq_getElem?_getD,
        List.getElem?_eq_getElem (show c < cd.starts.length by omega), Option.getD_some]
    simp [List.getElem_append_right (Nat.le_of_eq he.symm), he, fieldEnd, lastEnd, hlast,
      show cd.columns.length - 1 = c by omega]

end Loc

/-! ## The turn of the loop for the column -/

section Turn

variable {st : Store} {t c w : Nat} {ns : List Int}

/-- The turn of `_scale_back`'s loop for the column prints every value back into the cell it
was read from, or raises before writing: either way the store is as it was. -/
theorem CanonicalIntColumn.turn (h : CanonicalIntColumn st t c w ns) {st' : Store} {H : Int}
    {widths : List (Option Nat)} (hwidth : pyGet widths c = .ok (some w))
    (hr : st'.recs t = { st.recs t with coldefs := { (st.recs t).coldefs with
      starts := (st.recs t).coldefs.starts ++ [lastEnd (st.recs t).coldefs] }, heapsize := H })
    (hconv : st'.conv (st.recs t).convert c = some (fieldArray st t))
    (hread : st'.read (fieldArray st t) = ns.map fun n => .num (.int n))
    (hcells : st'.mem (.field (st.recs t).buf c) = st.mem (.field (st.recs t).buf c)) :
    final (scaleBackColumn t ((st.recs t).coldefs.starts ++ [lastEnd (st.recs t).coldefs]) widths c) st' = st' := by
  obtain ⟨spec, hspec⟩ := h.plain
  have hraw : FitsRec.rawField { st.recs t with coldefs := { (st.recs t).coldefs with
      starts := (st.recs t).coldefs.starts ++ [lastEnd (st.recs t).coldefs] }, heapsize := H } c =
      (st.recs t).rawField c := rfl
  simp only [final, scaleBackColumn, getRec_bind, hr, getConv_bind, hconv, readView_bind, hread, hraw,
    ColDefs.col_starts, hspec, getScaleFactors_starts, h.asciiInt.scaleFactors, liftExcept_ok_bind,
    ColDefs.isAscii_starts, scaleBackValues,
    h.ascii, pure_bind, Bool.true_or, Bool.or_false, Bool.and_false, Bool.false_eq_true, if_true, if_false,
    ite_true]
  have hn := h.starts
  simp only [FitsRec.nfields] at hn
  have hc : c < (st.recs t).coldefs.columns.length := h.lt
  by_cases hfit : (st.recs t).coldefs.starts.getD c 0 + w ≤ fieldEnd (st.recs t).coldefs c
  · rw [AsciiLayout.asciiWrite_fits st' (loc_get hn hc) (loc_get_next hn hc) hwidth hfit
      (by rw [h.format, strip_format]) (show asciiConv? 'I' = some 'd' from rfl) (widthPrec_showNat w)]
    have hlen : 0 + (ns.map fun n => Elem.num (.int n)).length ≤ ((st.recs t).rawField c).len := by
      simp [h.len]
    rw [AsciiLayout.asciiWriteRows_ok _ _ _ _
      (ns.map fun n => canonicalCell w (trailingBlanks (st.recs t).coldefs c w) n) ?_ 0 st' hlen]
    · refine (Store.writeFrom_of_eq _ st' 0 _ fun k hk => ?_).symm ▸ rfl
      have hk' : k < ns.length := by simpa using hk
      rw [FitsRec.rawField_base, hcells, Nat.zero_add, h.cells k (h.len ▸ hk')]
      simp [List.getD_eq_getElem?_getD, List.getElem?_eq_getElem hk']
    · simp only [List.forall₂_map_left_iff, List.forall₂_map_right_iff, List.forall₂_same]
      intro n hn
      have hw := h.width n hn
      obtain ⟨m, hm, hle⟩ := h.str
      have hcell := canonicalCell_length (trailingBlanks (st.recs t).coldefs c w) hw
      refine ⟨?_, ?_, ?_⟩
      · simp only [pyFormat, pyFormatNum, fmtInt_none, format_contains_A, Functor.map, Except.map,
          canonicalCell, trailingBlanks, sub_right_comm _ (w : Int)]
      · rw [hcell, trailingBlanks]
        omega
      · rw [FitsRec.rawField_dtype, hm]
        exact DType.cast_str_text (hcell ▸ hle)
  · rw [AsciiLayout.asciiWrite_next_overlap st' (loc_get hn hc) (loc_get_next hn hc) hwidth (by omega)]

/-- The layout step gives the column the width of its `TFORM`. -/
theorem CanonicalIntColumn.width_of_layout (h : CanonicalIntColumn st t c w ns) {widths : List (Option Nat)}
    (hw : (st.recs t).coldefs.columns.mapM (fun c => convertAsciiFormat c.format) = .ok widths) :
    pyGet widths c = .ok (some w) := by
  have hF := except_forall₂_of_mapM hw
  have hc : c < (st.recs t).coldefs.columns.length := h.lt
  have hcw : c < widths.length := hF.length_eq ▸ hc
  have hx := hF.get hc hcw
  have hcol : (st.recs t).coldefs.columns[c] = (st.recs t).coldefs.col c := by
    simp [ColDefs.col, List.getD_eq_getElem?_getD, List.getElem?_eq_getElem hc]
  simp only [List.get_eq_getElem, hcol, convertAsciiFormat_I h.format, Except.ok.injEq] at hx
  rw [pyGet_of_lt hcw, ← hx]

end Turn

/-! ## Reading and saving -/

section RoundTrip

variable {st : Store} {t c w : Nat} {ns : List Int}

/-- The loop over the columns keeps the column's cells: every other turn writes only its own
column, and the column's own turn leaves the store as it is. -/
theorem CanonicalIntColumn.loop (h : CanonicalIntColumn st t c w ns) {st3 : Store} {n : Nat}
    {widths : List (Option Nat)} (hwidth : pyGet widths c = .ok (some w))
    (h3r : st3.recs t = { st.recs t with coldefs := { (st.recs t).coldefs with
      starts := (st.recs t).coldefs.starts ++ [lastEnd (st.recs t).coldefs] }, heapsize := 0 })
    (h3c : st3.conv (st.recs t).convert c = some (fieldArray st t))
    (h3read : st3.read (fieldArray st t) = ns.map fun n => .num (.int n))
    (h3cells : st3.mem (.field (st.recs t).buf c) = st.mem (.field (st.recs t).buf c)) :
    (final ((List.range n).forM (scaleBackColumn t ((st.recs t).coldefs.starts ++
      [lastEnd (st.recs t).coldefs]) widths)) st3).mem (.field (st.recs t).buf c) =
      st.mem (.field (st.recs t).buf c) := by
  let W : Base → Int → Prop := fun b _ => ∃ j, j ≠ c ∧ b = .field (st.recs t).buf j
  have hcol : ∀ p, ¬ W (.field (st.recs t).buf c) p := fun _ ⟨j, hj, he⟩ => hj (Base.field.inj he).2.symm
  have harr : ∀ i, ¬ W (fieldArray st t).base i := fun _ ⟨_, _, he⟩ => Base.noConfusion he
  have hstay : ∀ j ∈ List.range n, Stays (ColumnsFrame t W st3)
      (scaleBackColumn t ((st.recs t).coldefs.starts ++ [lastEnd (st.recs t).coldefs]) widths j) := by
    intro j _
    by_cases hj : j = c
    · subst hj
      intro st' hst'
      have hr := ScaleBackFrame.eq_of_heapsize_zero hst'.table
      rw [h3r] at hr
      rw [h.turn hwidth hr (by rw [hst'.conv, h3c]) (by rw [hst'.read_eq fun i _ => harr ((fieldArray st t).pos i), h3read])
        (by rw [← h3cells]; exact funext fun p => hst'.mem_eq (hcol p))]
      exact hst'
    · exact stays_scaleBackColumn _ widths j fun _ _ _ _ _ => ⟨j, hj, by rw [h3r]⟩
  rw [← h3cells]
  exact funext fun p => (stays_forM hstay st3 (ColumnsFrame.refl t W st3)).mem_eq (hcol p)

/-- Reading an unscaled `Iw` column of an ASCII table and saving the table leaves every cell of
the column as it was, when every cell is the canonical rendering of an int32 that is not the
sentinel: whatever the other columns hold, and whether `_scale_back` returns or raises. -/
theorem ascii_int_round_trip (h : CanonicalIntColumn st t c w ns) :
    (final (FitsRec.scaleBack t) (final (FitsRec.field t (.pos c)) st)).mem (.field (st.recs t).buf c) =
      st.mem (.field (st.recs t).buf c) := by
  obtain ⟨st1, hf, hrecs, hconv, hread, hmem⟩ := h.field
  have hbase : Base.field (st.recs t).buf c ≠ .arr st.next := by simp
  rw [final_ok hf, FitsRec.scaleBack, final_bind_ok (getRec_apply st1 t)]
  simp only [hrecs, h.ascii, if_true]
  match hl : asciiLayout t st1 with
  | .error e st2 =>
    simp only [final, bind_error hl, AsciiLayout.asciiLayout_error hl, hmem _ hbase]
  | .ok (loc, widths) st2 =>
    obtain ⟨rfl, hloc, hw⟩ := AsciiLayout.asciiLayout_ok hl
    rw [final_bind_ok hl, final_bind_ok (getRec_apply _ t), final_bind_ok (setRec_apply _ t _)]
    rw [hrecs] at hloc hw
    subst hloc
    simp only [setAt_same, hrecs]
    exact h.loop (h.width_of_layout hw) (by simp only [setAt_same, appendStarts_self, hrecs]; rfl)
      (by simpa using hconv) hread (hmem _ hbase)

/-- An ASCII table of two rows with one `I4` column from character 1, holding `  12` and `  -7`. -/
def intTable : Store :=
  Store.ofTable "TableHDU" [⟨"n", "I4", .plain "a4", none, none, ""⟩] [1]
    [[.text "  12".toList], [.text "  -7".toList]] []

/-- Both cells of `intTable` come back as they were. -/
theorem int_cells_kept :
    (final (FitsRec.scaleBack 0) (final (FitsRec.field 0 (.pos 0)) intTable)).mem (.field 0 0) =
      intTable.mem (.field 0 0) :=
  ascii_int_round_trip (show CanonicalIntColumn intTable 0 0 4 [12, -7] from
    ⟨by decide, by decide, by decide, by decide, ⟨"a4", rfl⟩, ⟨4, rfl, by decide⟩, rfl, rfl, rfl, by decide,
      by decide, by decide, by decide, by decide⟩)

/-- An `I4` column with the sentinel `NULL`, holding a null cell and the cell `  12`. -/
def nullTable : Store :=
  Store.ofTable "TableHDU" [⟨"n", "I4", .plain "a4", none, none, "NULL"⟩] [1]
    [[.text "NULL".toList], [.text "  12".toList]] []

/-- Reading the column and saving the table writes the null cell back as `   0`; the cell
`  12` comes back as it was. -/
theorem null_cell_written_as_number :
    (final (FitsRec.scaleBack 0) (final (FitsRec.field 0 (.pos 0)) nullTable)).mem (.field 0 0) 0 =
      .text "   0".toList ∧
    (final (FitsRec.scaleBack 0) (final (FitsRec.field 0 (.pos 0)) nullTable)).mem (.field 0 0) 1 =
      .text "  12".toList := by
  decide

end RoundTrip

end PyFits.AsciiRoundTrip
