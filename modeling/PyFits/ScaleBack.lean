import PyFits.Field

/-!
# `FITS_rec._scale_back`

`_scale_back` regenerates the raw fields of the materialized columns from their cached
arrays before a table is written. An `X` column is packed back into bytes; a `P` column's
descriptors are recomputed from the lengths of its rows, its heap bytes laid after those of
the `P` columns before it, and `_heapsize` is their total; a scaled column is unscaled (on a
copy) and cast back to the field's type, rounded first when that is an integer scalar; an
ASCII column's values are printed into its text fields; a logical column becomes `T` and `F`
bytes. Columns whose slot is empty keep their raw fields.

In an ASCII table `_scale_back` first computes `_loc`, which is the list `_coldefs.starts`
itself, and appends to it the end of the last field; the overlap checks are raised as
`'...' % indx + 1`, which Python evaluates as a string plus an integer. Both are modelled
as written.
-/

namespace PyFits

/-- `itemsize` of a record field. -/
def FieldType.itemsize : FieldType → Nat
  | .num (.int b) _ | .num (.uint b) _ | .num (.float b) _ => b
  | .str n => n
  | .other => 0

/-- `xs[i]` on a Python list. -/
def pyGet {α : Type} (xs : List α) (i : Int) : Except PyError α := do
  let j ← pyIndex xs.length i
  match xs.get? j with
  | some a => pure a
  | none => throw (.indexError "list index out of range")

/-- The message Python 2 raises for `str + int`. -/
def concatError : PyError := .typeError "cannot concatenate \x27str\x27 and \x27int\x27 objects"

/-! ## `X`, `P` and logical columns -/

/-- `_wrapx(self._convert[indx], rec.recarray.field(self,indx), nx)`: the field is reset to
zero bytes, then every row is packed from its bits. -/
def wrapxColumn (conv : List Elem) (nx : Nat) (raw : View) : M Unit := do
  raw.setAll [.nums (List.replicate ((nx - 1) / 8 + 1) (.int 0))]
  let cells ← liftExcept <| conv.mapM fun
    | .flags bs => .ok (.nums ((wrapx bs nx).map fun (b : Nat) => .int b))
    | _ => .error (.typeError "unsupported operand type for left_shift")
  raw.setAll cells

/-- The lengths `map(len, self._convert[indx])` of the rows of a variable-length column. -/
def rowLengths (conv : List Elem) : Except PyError (List Nat) :=
  conv.mapM fun e => e.len?.elim (.error (.typeError "object has no len()")) .ok

/-- The descriptors `(count, offset)` of `n` rows with stored counts `counts`, each offset the
exclusive running sum of the counts times `size`, plus `base`, in `int32`. -/
def descriptors (counts : List Int) (size : Nat) (base : Int) : List Elem :=
  (List.range counts.length).map fun j =>
    .nums [.int (counts.getD j 0), .int (wrapInt 4 true (size * (counts.take j).sum + base))]

/-- The `P` branch of `_scale_back`. -/
def scaleBackP (self : Nat) (conv : List Elem) (dt : String) (desc : View) : M Unit := do
  desc.setAll [.nums [.int 0, .int 0]]
  let npts ← liftExcept (rowLengths conv)
  if npts.length > desc.len ∧ npts.length ≠ 1 then
    throw (.valueError "shape mismatch: objects cannot be broadcast to a single shape")
  let counts : List Int := (List.range desc.len).map fun j =>
    if j < npts.length then wrapInt 4 true (npts.getD j 0) else 0
  desc.setAll (counts.map fun n => .nums [.int n, .int 0])
  let size ← liftExcept ((heapItemsize? dt).elim (.error (.typeError "data type not understood")) .ok)
  let r ← getRec self
  desc.setAll (descriptors counts size r.heapsize)
  setRec self { r with heapsize := r.heapsize + size * counts.sum }

/-- `numpy.choose(self._convert[indx], (ord('F'), ord('T')))`. -/
def chooseColumn (conv : List Elem) : Except PyError (List Elem) :=
  conv.mapM fun e => e.chooseFT.elim (.error (.valueError "invalid entry in choice array")) .ok

/-! ## Numeric columns of binary tables -/

/-- `dummy.astype(f.dtype)` for a field of type `t`. -/
def astypeColumn (t : FieldType) (dummy : List Elem) : Except PyError (List Elem) :=
  match t with
  | .num k _ => dummy.mapM fun e => (e.mapNum (Num.cast k)).elim (.error (.typeError "not a number")) .ok
  | _ => .error (.typeError "cannot cast the column to the field type")

/-- `f[:] = dummy.astype(f.dtype)` where `dummy` is a copy of a `_VLF`, an array of rows, and
`f` the `(count, offset)` descriptor field: every row must hold one number, which `int()`
truncates, and the resulting vector of `m` numbers is broadcast into each descriptor, which
needs `m = 1` or `m = 2`. -/
def astypeDescriptors (n : Nat) (dummy : List Elem) : Except PyError (List Elem) := do
  let vs ← dummy.mapM fun
    | .nums [x] => match x with
      | .int i => .ok (wrapInt 4 true i)
      | .float f => (Flt.trunc? f).elim (.error (.valueError "cannot convert float NaN to integer"))
          (fun i => .ok (wrapInt 4 true i))
    | _ => .error (.typeError "only length-1 arrays can be converted to Python scalars")
  match vs with
  | [v] => pure (List.replicate n (.nums [.int v, .int v]))
  | [v, w] => pure (List.replicate n (.nums [.int v, .int w]))
  | _ => throw (.valueError "shape mismatch: objects cannot be broadcast to a single shape")

/-- The binary-table write of a numeric column: `numpy.around` when `field[0]` is an
integer scalar, then the cast into the field. -/
def binaryWrite (fmt : RecFormat) (raw : View) (dummy : List Elem) : M Unit := do
  if raw.len = 0 then throw (.indexError "index out of bounds")
  let dummy := if fmt.fieldType.isIntegerScalar then dummy.map fun e => (e.mapNum Num.around).getD e
    else dummy
  let cells ← liftExcept <| match fmt with
    | .p _ => astypeDescriptors raw.len dummy
    | _ => astypeColumn fmt.fieldType dummy
  raw.setAll cells

/-! ## ASCII columns -/

/-- `_fmap` of `_scale_back`: the `%` conversion of a `TFORM` code. -/
def asciiConv? : Char → Option Char
  | 'A' => some 's'
  | 'I' => some 'd'
  | 'F' => some 'f'
  | 'E' | 'D' => some 'E'
  | _ => none

/-- `%d` with a precision: at least `p` digits. -/
def fmtInt (p : Option Nat) (i : Int) : List Char :=
  let ds := showNat i.natAbs
  let ds := List.replicate (p.getD 0 - ds.length) '0' ++ ds
  if i < 0 then '-' :: ds else ds

/-- The conversion `%<conv>` (with precision `p`, before padding) of one number. A float
under `%s` is not modelled: an `A` column of an ASCII table is never materialized. -/
def pyFormatNum (conv : Char) (p : Option Nat) : Num → Except PyError (List Char)
  | .int i =>
    match conv with
    | 'd' => .ok (fmtInt p i)
    | 'f' => .ok (fmtFixed (p.getD 6) (Flt.ofInt binary64 i))
    | 'E' => .ok (fmtExp (p.getD 6) (Flt.ofInt binary64 i))
    | _ => .ok (showInt i)
  | .float x =>
    match conv with
    | 'd' => match x with
      | .fin _ _ => .ok (fmtInt p ((Flt.trunc? x).getD 0))
      | .inf _ => .error (.overflowError "cannot convert float infinity to integer")
      | .nan => .error (.valueError "cannot convert float NaN to integer")
    | 'f' => .ok (fmtFixed (p.getD 6) x)
    | 'E' => .ok (fmtExp (p.getD 6) x)
    | _ => .error (.typeError "str of a float is not modelled")

/-- `'%<conv>' % x` before padding. -/
def pyFormat (conv : Char) (p : Option Nat) : Elem → Except PyError (List Char)
  | .num x => pyFormatNum conv p x
  | .flag b => pyFormatNum conv p (.int (if b then 1 else 0))
  | .text s => if conv = 's' then .ok s else .error (.typeError "a number is required, not str")
  | _ => .error (.typeError "not all arguments converted during string formatting")

/-- The loop `for i in range(len(dummy))` of the ASCII branch: each value is printed by
`render`, checked against the field's span, and written to row `i`. -/
def asciiWriteRows (raw : View) (render : Elem → Except PyError (List Char)) (span : Int)
    (width : Nat) : Nat → List Elem → M Unit
  | _, [] => pure ()
  | i, e :: es => do
    let x ← liftExcept (render e)
    if (x.length : Int) > span then
      throw (.valueError ("Number \x60" ++ x.asString ++ "\x60 does not fit into the output\x27s itemsize of "
        ++ (showNat width).asString ++ "."))
    raw.setItem i (.text x)
    asciiWriteRows raw render span width (i + 1) es

/-- The ASCII branch of `_scale_back` for column `indx`, with `_loc` and `_width`. -/
def asciiWrite (c : Column) (starts loc : List Int) (widths : List (Option Nat)) (indx : Nat)
    (raw : View) (dummy : List Elem) : M Unit := do
  let format := strip c.format.toList
  let start ← liftExcept (pyGet starts indx)
  let lead := start - (← liftExcept (pyGet loc indx))
  if lead < 0 then throw concatError
  let next ← liftExcept (pyGet loc (indx + 1))
  let w ← match ← liftExcept (pyGet widths indx) with
    | some w => pure w
    | none => throw (.typeError "unsupported operand type(s) for -: \x27int\x27 and \x27NoneType\x27")
  let trail := next - w - start
  if trail < 0 then throw concatError
  let code ← match format with
    | ch :: _ => pure ch
    | [] => throw (.indexError "string index out of range")
  let conv ← match asciiConv? code with
    | some cv => pure cv
    | none => throw (.keyError code.toString)
  let (fw, prec) ← match widthPrec? (format.drop 1) with
    | some wp => pure wp
    | none => throw (.valueError "unsupported format character")
  let render := fun e => (fun s => blanks lead.toNat ++ pad (format.contains 'A') fw s ++
    blanks trail.toNat) <$> pyFormat conv prec e
  asciiWriteRows raw render (next - (← liftExcept (pyGet loc indx))) w 0 dummy
  if format.contains 'D' then
    let _discarded := ((← readView raw).map fun
      | .text s => Elem.text (replaceChar 'E' 'D' s)
      | e => e)
    pure ()

/-! ## `_scale_back` -/

/-- The start of `_scale_back` for an ASCII table: `_width`, the `TFORM` widths, and `_loc`,
which is `_coldefs.starts` with the end of the last field appended to the list itself, so in the
`ColDefs` object every table holding it sees. -/
def asciiLayout (self : Nat) : M (List Int × List (Option Nat)) := do
  let r ← getRec self
  let widths ← liftExcept (r.coldefs.columns.mapM fun c => convertAsciiFormat c.format)
  let last ← match r.coldefs.starts.getLast? with
    | some s => pure s
    | none => throw (.indexError "list index out of range")
  if r.nfields = 0 then
    throw (.nameError "local variable \x27i\x27 referenced before assignment")
  let loc := r.coldefs.starts ++
    [last + ((r.coldefs.col (r.nfields - 1)).recformat.fieldType.itemsize : Int)]
  setColDefs r.cdId { r.coldefs with starts := loc }
  pure (loc, widths)

/-- The branches of the loop's turn for column `indx` that follow the `P` branch, on the record
`r` the turn read and the cached values `conv`: a number or a string is written back, unscaled
first when it is scaled (and in an ASCII table also when it is not); a logical value is chosen
back into `T` and `F` bytes. -/
def scaleBackValues (self : Nat) (r : FitsRec) (loc : List Int) (widths : List (Option Nat)) (indx : Nat)
    (conv : List Elem) (sf : ScaleFactors) : M Unit := do
  let c := r.coldefs.col indx
  let raw := r.rawField indx
  if sf.number || sf.str then
    let dummy? ← if sf.number && (sf.scale || sf.zero) then do
        let f := match c.recformat with
          | .p dt => (match dt.toList with
            | ch :: n => ((numKind? ch (digitsValue n)).getD (.int 1)).format
            | [] => binary64)
          | _ => binary64
        some <$> liftExcept (conv.mapM fun e =>
          (e.mapNum (sf.invert f)).elim (.error (.typeError "not a number")) .ok)
      else pure (if r.coldefs.isAscii then some conv else none)
    match dummy? with
    | none => pure ()
    | some dummy =>
      let r ← getRec self
      if r.coldefs.isAscii then asciiWrite c r.coldefs.starts loc widths indx raw dummy
      else binaryWrite c.recformat raw dummy
  else if sf.bool then raw.setAll (← liftExcept (chooseColumn conv))
  else pure ()

/-- The body of `_scale_back`'s loop for column `indx`. -/
def scaleBackColumn (self : Nat) (loc : List Int) (widths : List (Option Nat)) (indx : Nat) :
    M Unit := do
  let r ← getRec self
  match ← getConv r.convert indx with
  | none => pure ()
  | some cv =>
    let conv ← readView cv
    let raw := r.rawField indx
    match (r.coldefs.col indx).recformat with
    | .x nx => wrapxColumn conv nx raw
    | fmt => do
      let sf ← liftExcept (getScaleFactors r.coldefs indx)
      match fmt with
      | .p dt => scaleBackP self conv dt raw
      | _ => pure ()
      scaleBackValues self r loc widths indx conv sf

/-- `FITS_rec._scale_back()`. -/
def FitsRec.scaleBack (self : Nat) : M Unit := do
  let r ← getRec self
  let (loc, widths) ← if r.coldefs.isAscii then asciiLayout self else pure ([], [])
  let r ← getRec self
  setRec self { r with heapsize := 0 }
  (List.range r.nfields).forM (scaleBackColumn self loc widths)

end PyFits
