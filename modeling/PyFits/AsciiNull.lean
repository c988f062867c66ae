import PyFits.Python.Decimal
import PyFits.ScaleBackFrame

/-!
# Null cells of ASCII tables

`field` reads an ASCII cell after rewriting its `D` exponent markers to `E`, and compares the
stripped result with the stripped `TNULL`. The sentinel itself is not rewritten, so a cell that
spells a sentinel containing a `D` (IRAF's `INDEF`) is not recognised as null and is parsed as
a number. For a sentinel with no `D` the comparison is the intended one: every cell that spells
it reads as `ASCIITNULL`, which for an `I` column is the integer itself.
-/

namespace PyFits.AsciiNull

/-! ## Recognising the sentinel -/

theorem isSpace_replace_D (c : Char) : isSpace (if c = 'D' then 'E' else c) = isSpace c := by
  split
  · next h => subst h; rfl
  · rfl

theorem strip_replace_D (s : List Char) : strip (replaceChar 'D' 'E' s) = replaceChar 'D' 'E' (strip s) := by
  have hp : (isSpace ∘ fun c => if c = 'D' then 'E' else c) = isSpace := funext isSpace_replace_D
  simp only [strip, replaceChar, List.dropWhile_map, hp, ← List.map_reverse]

theorem replace_D_of_not_mem {s : List Char} (h : 'D' ∉ s) : replaceChar 'D' 'E' s = s := by
  conv_rhs => rw [← List.map_id s]
  refine List.map_congr_left fun c hc => if_neg ?_
  rintro rfl
  exact h hc

/-- With a sentinel that has no `D`, a cell whose stripped text is the sentinel is read as the
text of `ASCIITNULL`. -/
theorem decodeAsciiCell_null (k : NumKind) {nullval : List Char} (tnull : Int) {s : List Char}
    (hD : 'D' ∉ nullval) (hs : strip s = nullval) :
    decodeAsciiCell k nullval tnull (.text s) = .num <$> parseAscii k (showInt tnull) := by
  have hnull : strip (replaceChar 'D' 'E' s) = nullval := by
    rw [strip_replace_D, hs, replace_D_of_not_mem hD]
  simp only [decodeAsciiCell, hnull, if_true]

/-- An `I` cell holding `str(n)` with blanks around it reads as `n`, for every int32 `n`. -/
theorem parseAscii_showInt (a b : Nat) {n : Int} (hn : -(2 : Int) ^ 31 ≤ n ∧ n < 2 ^ 31) :
    parseAscii (.int 4) (blanks a ++ showInt n ++ blanks b) = .ok (.int n) := by
  simp only [parseAscii, pyInt_showInt]
  rw [if_pos (by norm_num at hn ⊢; exact hn)]

/-! ## Reading the column -/

/-- Column `c` of table `t` is an unscaled `I` column of an ASCII table whose slot is empty. -/
structure AsciiIntColumn (st : Store) (t c : Nat) : Prop where
  ascii : (st.recs t).coldefs.isAscii = true
  lt : c < (st.recs t).nfields
  code : ((st.recs t).coldefs.col c).format.toList.head? = some 'I'
  plain : ∃ spec, ((st.recs t).coldefs.col c).recformat = .plain spec
  bscale : ((st.recs t).coldefs.col c).bscale = none
  bzero : ((st.recs t).coldefs.col c).bzero = none
  slot : st.conv (st.recs t).convert c = none

section Column

variable {st : Store} {t c : Nat}

theorem AsciiIntColumn.format_I (h : AsciiIntColumn st t c) :
    ∃ rest, ((st.recs t).coldefs.col c).format.toList = 'I' :: rest :=
  List.head?_eq_some_iff.mp h.code

theorem AsciiIntColumn.scaleFactors (h : AsciiIntColumn st t c) :
    getScaleFactors (st.recs t).coldefs c = .ok ⟨false, false, true, false, false, fltOne, fltZero⟩ := by
  have hb : (st.recs t).coldefs.isBinary = false := by
    have := h.ascii
    simp only [ColDefs.isAscii, decide_eq_true_eq] at this
    simp [ColDefs.isBinary, this]
  obtain ⟨rest, hr⟩ := h.format_I
  simp only [getScaleFactors, hb, hr, h.bscale, h.bzero]
  rfl

theorem AsciiIntColumn.cacheDType (h : AsciiIntColumn st t c) : cacheDType (st.recs t) c = .num (.int 4) := by
  obtain ⟨spec, hspec⟩ := h.plain
  simp only [PyFits.cacheDType, hspec, h.scaleFactors, h.code]
  rfl

/-- The array `field` makes for the column from `st`: a new array of int32 values. -/
def fieldArray (st : Store) (n : Nat) : View := ⟨.arr st.next, 0, 1, n, .num (.int 4)⟩

/-- When every cell parses, `field(c)` caches the parsed values in a new array, returns it, and
changes nothing else. -/
theorem AsciiIntColumn.field (h : AsciiIntColumn st t c) {ys : List Elem}
    (hdec : decodeAscii ((st.recs t).coldefs.col c) st.asciiTNull (st.read ((st.recs t).rawField c)) = .ok ys) :
    ∃ st1, FitsRec.field t (.pos c) st = .ok (fieldArray st ys.length) st1 ∧ st1.recs = st.recs ∧
      st1.conv (st.recs t).convert c = some (fieldArray st ys.length) ∧ st1.read (fieldArray st ys.length) = ys ∧
      ∀ b, b ≠ .arr st.next → st1.mem b = st.mem b := by
  obtain ⟨spec, hspec⟩ := h.plain
  have hk : (Except.ok (c : Int) >>= pyIndex (st.recs t).nfields) = .ok c := pyIndex_of_lt h.lt
  simp only [FitsRec.field, getRec_bind, getIndex, hk, liftExcept_ok_bind,
    getConv_bind, h.slot, convertField, readView_bind, hspec, h.scaleFactors, h.ascii, hdec, if_true,
    Bool.false_eq_true, if_false, Bool.false_or, Bool.and_false, pure_bind, bind_assoc, getAsciiTNull_bind,
    h.cacheDType]
  simp only [liftExcept, map_pure, pure_bind, if_true]
  refine ⟨_, rfl, by simp, by simp [setConv, fieldArray], ?_, fun b hb => funext fun p => ?_⟩
  · exact Store.read_writeList _ _ one_ne_zero _ rfl
  · exact Store.writeFrom_mem_of_base_ne _ _ 0 _ hb p

end Column

theorem except_mapM_of_forall_ok {α β : Type} {f : α → Except PyError β} :
    ∀ {xs : List α}, (∀ x ∈ xs, ∃ y, f x = .ok y) → ∃ ys, xs.mapM f = .ok ys
  | [], _ => ⟨[], rfl⟩
  | x :: xs, h => by
    obtain ⟨y, hy⟩ := h x (List.mem_cons_self x xs)
    obtain ⟨ys, hys⟩ := except_mapM_of_forall_ok fun x' hx' => h x' (List.mem_cons_of_mem x hx')
    exact ⟨y :: ys, by rw [List.mapM_cons, hy, hys]; rfl⟩

/-- In an unscaled `I` column of an ASCII table whose sentinel has no `D` and whose cells all
parse, `field(c)[i]` reads the integer `ASCIITNULL` at every row `i` whose cell spells the
sentinel, whenever `ASCIITNULL` fits in 32 bits. -/
theorem null_cell_reads_asciiTNull {st : Store} {t c i : Nat} {s : List Char} (hcol : AsciiIntColumn st t c)
    (hcells : ∀ j < (st.recs t).len, ∃ y, decodeAsciiCell (.int 4) (strip ((st.recs t).coldefs.col c).null.toList)
      st.asciiTNull (st.mem (.field (st.recs t).buf c) (((st.recs t).rawField c).pos j)) = .ok y)
    (hD : 'D' ∉ strip ((st.recs t).coldefs.col c).null.toList)
    (ht : -(2 : Int) ^ 31 ≤ st.asciiTNull ∧ st.asciiTNull < 2 ^ 31) (hi : i < (st.recs t).len)
    (hs : st.mem (.field (st.recs t).buf c) (((st.recs t).rawField c).pos i) = .text s)
    (hnull : strip s = strip ((st.recs t).coldefs.col c).null.toList) :
    ∃ st', getCell t (.pos c) i st = .ok (.num (.int st.asciiTNull)) st' := by
  obtain ⟨rest, hr⟩ := hcol.format_I
  obtain ⟨ys, hys⟩ := @except_mapM_of_forall_ok _ _ (decodeAsciiCell (.int 4)
      (strip ((st.recs t).coldefs.col c).null.toList) st.asciiTNull) (st.read ((st.recs t).rawField c))
    fun x hx => by
      obtain ⟨j, hj, rfl⟩ := List.mem_map.mp hx
      exact hcells j (by simpa using hj)
  have hdec : decodeAscii ((st.recs t).coldefs.col c) st.asciiTNull (st.read ((st.recs t).rawField c)) = .ok ys := by
    simpa only [decodeAscii, hr, show asciiNumKind? 'I' = some (.int 4) from rfl, pure_bind] using hys
  obtain ⟨st1, hf, -, -, hread, -⟩ := hcol.field hdec
  have hF := except_forall₂_of_mapM hys
  have hlen : i < ys.length := by rw [← hF.length_eq]; simpa [Store.read] using hi
  have hcell : ys[i] = .num (.int st.asciiTNull) := by
    have hx := hF.get (by rw [hF.length_eq]; exact hlen) hlen
    have h := parseAscii_showInt 0 0 ht
    simp only [blanks_zero, List.nil_append, List.append_nil] at h
    simp only [List.get_eq_getElem, Store.read, List.getElem_map, List.getElem_range, FitsRec.rawField_base, hs,
      decodeAsciiCell_null _ _ hD hnull, h] at hx
    exact (Except.ok.inj hx).symm
  have hmem : st1.mem (.arr st.next) ((fieldArray st ys.length).pos i) = ys[i] := by
    have h := congrArg (fun l => l.getD i default) hread
    simpa [Store.read, fieldArray, List.getD_eq_getElem?_getD, hlen] using h
  refine ⟨st1, ?_⟩
  rw [getCell, bind_ok hf]
  simp only [View.getItem, fieldArray, npIndex, Nat.cast_lt, hlen, Nat.cast_nonneg, and_self, if_true]
  simp only [fieldArray] at hmem
  rw [Int.toNat_natCast, hmem, hcell]

/-- An `I5` column with the sentinel `NULL`, holding ` NULL ` and `    7`. -/
def nullAndSeven : Store :=
  Store.ofTable "TableHDU" [⟨"n", "I5", .plain "a6", none, none, "NULL"⟩] [1]
    [[.text " NULL ".toList], [.text "    7".toList]] []

/-- With `ASCIITNULL` zero, `field(0)[0]` reads the blank-padded null cell as `0`. -/
theorem blank_padded_null_reads_zero :
    ∃ st', getCell 0 (.pos 0) 0 nullAndSeven = .ok (.num (.int 0)) st' :=
  @null_cell_reads_asciiTNull nullAndSeven 0 0 0 " NULL ".toList
    ⟨by decide, by decide, by decide, ⟨"a6", rfl⟩, rfl, rfl, rfl⟩
    (fun j hj => match j, hj with
      | 0, _ => ⟨_, rfl⟩
      | 1, _ => ⟨_, rfl⟩)
    (by decide) (by decide) (by decide) rfl (by decide)

/-- An `I5` column with the IRAF sentinel `INDEF`, holding one null cell. -/
def indefTable : Store :=
  Store.ofTable "TableHDU" [⟨"n", "I5", .plain "a5", none, none, "INDEF"⟩] [1]
    [[.text "INDEF".toList]] []

/-- Reading the column raises: the cell is rewritten to `INEEF`, which is not the sentinel and
not a number. -/
theorem indef_cell_raises :
    raised (FitsRec.field 0 (.pos 0)) indefTable =
      some (.valueError "invalid literal for int() with base 10: INEEF") := by
  decide

end PyFits.AsciiNull
