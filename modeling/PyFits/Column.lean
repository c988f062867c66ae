import PyFits.NumPy.Array

/-!
# Column descriptors

`FITS_rec` reads its columns' definitions from a `ColDefs` object: the table kind
(`_tbtype`), and for each column its name, its `TFORM` (`formats`, and `_Formats` in an
ASCII table), its numpy record format (`_recformats`), its `TSCAL`, `TZERO` and `TNULL`,
the starting columns of an ASCII table's fields (`starts`), and the arrays of the columns
(`_arrays`, of which `FITS_rec` reads only the lengths) with `_shape`. `ColDefs` is not in the
repository's files; it is held here as the values `FITS_rec` reads and writes. `TSCAL` and `TZERO` are
`none` where `ColDefs` gives `''` or `None`, and Python floats otherwise.
-/

namespace PyFits

/-- A column's record format: `_FormatX` (a field of `nx` bits), `_FormatP` (a
`(count, offset)` descriptor whose heap elements have numpy type `dtype`), or a plain numpy
format string. -/
inductive RecFormat where
  | x (nx : Nat)
  | p (dtype : String)
  | plain (spec : String)
  deriving DecidableEq, Repr

/-- The format string a record format is, as `str`. -/
def RecFormat.text : RecFormat → List Char
  | .x nx => showNat ((nx - 1) / 8 + 1) ++ "u1".toList
  | .p _ => "2i4".toList
  | .plain spec => spec.toList

/-- The dtype of the record field a record format lays out. -/
def RecFormat.fieldType : RecFormat → FieldType
  | .x nx => .num (.uint 1) ((nx - 1) / 8 + 1)
  | .p _ => .num (.int 4) 2
  | .plain spec => PyFits.fieldType spec.toList

/-- One column's definition, as `FITS_rec` reads it from `ColDefs`. -/
structure Column where
  name : String
  format : String
  recformat : RecFormat
  bscale : Option Flt
  bzero : Option Flt
  null : String
  deriving DecidableEq, Repr

instance : Inhabited Column := ⟨⟨"", "", .plain "", none, none, ""⟩⟩

/-- The column definitions of a table. `arrays` holds the length of each column's array in
`_arrays`, `none` where the entry is `None`. -/
structure ColDefs where
  tbtype : String
  columns : List Column
  starts : List Int
  arrays : List (Option Nat)
  shape : Nat
  deriving DecidableEq, Repr

namespace ColDefs

def names (cd : ColDefs) : List String := cd.columns.map Column.name

def isAscii (cd : ColDefs) : Bool := cd.tbtype = "TableHDU"

def isBinary (cd : ColDefs) : Bool := cd.tbtype = "BinTableHDU"

/-- Column `indx`, for an index already checked against the number of columns. -/
def col (cd : ColDefs) (indx : Nat) : Column := cd.columns.getD indx default

@[simp] theorem isAscii_starts (cd : ColDefs) (s : List Int) : { cd with starts := s }.isAscii = cd.isAscii := rfl

@[simp] theorem col_starts (cd : ColDefs) (s : List Int) (indx : Nat) :
    { cd with starts := s }.col indx = cd.col indx := rfl

end ColDefs

/-- A key of `field`: a position or a column name. -/
inductive Key where
  | pos (i : Int)
  | name (s : String)
  deriving DecidableEq, Repr

/-- Modelled from the spec: `_get_index` is not in the repository's files. A position is
returned as it is; a name resolves to the index of the column of that name, and a name
that no column has raises `KeyError`. -/
def getIndex (names : List String) : Key → Except PyError Int
  | .pos i => .ok i
  | .name s =>
    match names.indexOf? s with
    | some i => .ok i
    | none => .error (.keyError ("Key \x27" ++ s ++ "\x27 does not exist."))

/-- Python's indexing of a list of `n` items: a negative index counts from the end. -/
def pyIndex (n : Nat) (i : Int) : Except PyError Nat :=
  if 0 ≤ i ∧ i < n then .ok i.toNat
  else if -(n : Int) ≤ i ∧ i < 0 then .ok (i + n).toNat
  else .error (.indexError "list index out of range")

theorem pyIndex_of_lt {n indx : Nat} (h : indx < n) : pyIndex n indx = .ok indx := by
  simp only [pyIndex]
  rw [if_pos (by omega)]
  rfl

theorem pyIndex_lt {n : Nat} {i : Int} {j : Nat} (h : pyIndex n i = .ok j) : j < n := by
  simp only [pyIndex] at h
  split_ifs at h <;> simp only [Except.ok.injEq, reduceCtorEq] at h <;> omega

/-- What `_get_scale_factors` returns. -/
structure ScaleFactors where
  str : Bool
  bool : Bool
  number : Bool
  scale : Bool
  zero : Bool
  bscale : Flt
  bzero : Flt
  deriving DecidableEq, Repr

def fltOne : Flt := .fin 1 0

def fltZero : Flt := .fin 0 0

/-- `FITS_rec._get_scale_factors`. -/
def getScaleFactors (cd : ColDefs) (indx : Nat) : Except PyError ScaleFactors := do
  let c := cd.col indx
  let flags : Bool × Bool ← if cd.isBinary then
      pure (c.format.toList.contains 'a', c.recformat.text.reverse.take 2 == "1i".toList)
    else match c.format.toList with
      | ch :: _ => pure (ch == 'A', false)
      | [] => throw (.indexError "string index out of range")
  let (str, bool) := flags
  let scale := c.bscale.isSome && c.bscale != some fltOne
  let zero := c.bzero.isSome && c.bzero != some fltZero
  pure ⟨str, bool, !(bool || str), scale, zero,
    if scale then c.bscale.getD fltOne else fltOne,
    if zero then c.bzero.getD fltZero else fltZero⟩

/-- `_get_scale_factors` does not read `starts`. -/
@[simp] theorem getScaleFactors_starts (cd : ColDefs) (s : List Int) (indx : Nat) :
    getScaleFactors { cd with starts := s } indx = getScaleFactors cd indx := rfl

/-- What `_get_scale_factors` reports: a column is numeric exactly when it is neither logical nor
a string, and only a column of a binary table is logical. -/
theorem getScaleFactors_flags {cd : ColDefs} {c : Nat} {sf : ScaleFactors} (h : getScaleFactors cd c = .ok sf) :
    sf.number = !(sf.bool || sf.str) ∧ (sf.bool = true → cd.isAscii = false) := by
  unfold getScaleFactors at h
  cases hb : cd.isBinary
  · simp only [hb, Bool.false_eq_true, if_false] at h
    split at h
    · simp only [pure, Except.pure, bind, Except.bind, Except.ok.injEq] at h
      subst h
      exact ⟨rfl, fun h => nomatch h⟩
    · cases h
  · simp only [hb, if_true, pure, Except.pure, bind, Except.bind, Except.ok.injEq] at h
    subst h
    refine ⟨rfl, fun _ => ?_⟩
    simp only [ColDefs.isBinary, decide_eq_true_eq] at hb
    simp [ColDefs.isAscii, hb]

/-- Modelled from the spec: `_convert_ascii_format` is not in the repository's files. An
ASCII `TFORM` is a code `A`, `I`, `F`, `E` or `D` and a width, the digits after the code
(`none` when there are none); any other `TFORM` raises. -/
def convertAsciiFormat (format : String) : Except PyError (Option Nat) :=
  match strip format.toList with
  | c :: r =>
    if c ∈ ['A', 'I', 'F', 'E', 'D'] then
      let (w, _) := spanDigits r
      .ok (if w = [] then none else some (digitsValue w))
    else .error (.valueError ("Illegal format " ++ format ++ " for ASCII table."))
  | [] => .error (.valueError ("Illegal format " ++ format ++ " for ASCII table."))

/-- The numeric type an ASCII column's text is read into (`_fmap` of `field`). -/
def asciiNumKind? : Char → Option NumKind
  | 'I' => some (.int 4)
  | 'F' | 'E' => some (.float 4)
  | 'D' => some (.float 8)
  | _ => none

end PyFits
