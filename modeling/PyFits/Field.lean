import PyFits.Store

/-!
# `FITS_rec.field`

`field(key)` returns a column as a numpy array. When the column's `_convert` slot is empty
it converts the raw field: an `X` column is unpacked into bits, a `P` column is read row by
row from the heap (seeking before every row) and scaled, an ASCII column's text is parsed
(a cell whose stripped text is the column's stripped `TNULL` reads as `ASCIITNULL`), a
scaled column is promoted to `float64` and scaled, a logical column is compared with `'T'`.
Each such result is stored in the slot and returned; a string column, and an unscaled
numeric column of a binary table, are returned as the raw field itself and left uncached.
-/

namespace PyFits

/-! ## Conversions of whole columns -/

/-- `_unwrapx` of the raw cells of an `X` column. -/
def decodeX (nx : Nat) (raw : List Elem) : Except PyError (List Elem) :=
  raw.mapM fun
    | .nums bs => .ok (.flags (unwrapx (bs.map fun | .int i => i.toNat | .float _ => 0) nx))
    | _ => .error (.typeError "unsupported operand type for bitwise_and")

/-- The text of an ASCII cell read as the column's numeric type (`numpy.array(dummy,
dtype=_type)`). -/
def parseAscii (k : NumKind) (s : List Char) : Except PyError Num :=
  match k with
  | .int b =>
    match pyInt? s with
    | some i =>
      if -(2 : Int) ^ (8 * b - 1) ≤ i ∧ i < 2 ^ (8 * b - 1) then .ok (.int i)
      else .error (.overflowError "Python int too large to convert to C long")
    | none => .error (.valueError ("invalid literal for int() with base 10: " ++ s.asString))
  | k =>
    match pyFloat? s with
    | some x => .ok (.float (x.narrow k.format))
    | none => .error (.valueError ("invalid literal for float(): " ++ s.asString))

/-- One cell of the ASCII branch of `field`: `D` exponents read as `E`, a cell whose stripped
text is `nullval` reads as `str(ASCIITNULL)`, and the text is parsed as a `k`. -/
def decodeAsciiCell (k : NumKind) (nullval : List Char) (tnull : Int) : Elem → Except PyError Elem
  | .text s =>
    let d := replaceChar 'D' 'E' s
    let d := if strip d = nullval then showInt tnull else d
    .num <$> parseAscii k d
  | _ => .error (.typeError "expected a string")

/-- The ASCII branch of `field`: every cell is read as the type `_fmap` gives the `TFORM`
code, with the stripped `TNULL` as the null value. -/
def decodeAscii (c : Column) (tnull : Int) (raw : List Elem) : Except PyError (List Elem) := do
  let k ← match c.format.toList with
    | ch :: _ => match asciiNumKind? ch with
      | some k => pure k
      | none => throw (.keyError ch.toString)
    | [] => throw (.indexError "string index out of range")
  raw.mapM (decodeAsciiCell k (strip c.null.toList) tnull)

/-- `x * bscale` (when `_scale`) `+ bzero` (when `_zero`) in `float64`. -/
def ScaleFactors.apply (sf : ScaleFactors) (x : Num) : Num :=
  let y := x.toFlt binary64
  let y := if sf.scale then Flt.mul binary64 y sf.bscale else y
  .float (if sf.zero then Flt.add binary64 y sf.bzero else y)

/-- `(x - bzero)` (when `_zero`) `/ bscale` (when `_scale`) in the format `f`. -/
def ScaleFactors.invert (sf : ScaleFactors) (f : FltFormat) (x : Num) : Num :=
  let y := x.toFlt f
  let y := if sf.zero then Flt.sub f y sf.bzero else y
  .float (if sf.scale then Flt.div f y sf.bscale else y)

/-- `numpy.array(dummy, dtype=float64)`, multiplied by `bscale`, plus `bzero`. -/
def scaleColumn (sf : ScaleFactors) (cells : List Elem) : Except PyError (List Elem) :=
  cells.mapM fun e => (e.mapNum sf.apply).elim (.error (.typeError "not a number")) .ok

/-- `numpy.equal(dummy, ord('T'))`. -/
def equalT (cells : List Elem) : Except PyError (List Elem) :=
  cells.mapM fun e => e.isTrueByte.elim (.error (.typeError "not a number")) .ok

/-! ## The heap -/

def getAsciiTNull : M Int := fun st => .ok st.asciiTNull st

@[simp] theorem getAsciiTNull_bind {β : Type} (k : Int → M β) (st : Store) :
    (getAsciiTNull >>= k) st = k st.asciiTNull st := rfl

/-- `self.<name>` of an attribute of a `FITS_rec` that may never have been set. -/
def getAttr {α : Type} (name : String) : Option α → M α
  | some a => pure a
  | none => throw (.attributeError ("\x27FITS_rec\x27 object has no attribute \x27" ++ name ++ "\x27"))

/-- `self._file.seek(offset)`. -/
def seek (file : Option Nat) (offset : Int) : M Unit := fun st =>
  match file with
  | none => .error (.attributeError "\x27NoneType\x27 object has no attribute \x27seek\x27") st
  | some f =>
    if offset < 0 then .error (.ioError "[Errno 22] Invalid argument") st
    else .ok () { st with files := setAt st.files f { st.files f with pos := offset.toNat } }

/-- Modelled from the spec: `_fromfile` is not in the repository's files. It reads `count`
items of `size` bytes from the file's position (all the remaining items for a negative
`count`), and a short read raises. -/
def fromfile (file : Nat) (size : Nat) (count : Int) : M (List (List Nat)) := fun st =>
  let fo := st.files file
  let rest := fo.data.drop fo.pos
  let n := if count < 0 then rest.length / size.max 1 else count.toNat
  if fo.pos + n * size ≤ fo.data.length then
    .ok (chunks size n rest)
      { st with files := setAt st.files file { fo with pos := fo.pos + n * size } }
  else .error (.ioError "short read of the heap") st

/-- One row of a variable-length column: `count` heap elements of type `dt` from byte
`offset` of the file, characters for `a` and big-endian numbers otherwise. -/
def readHeap (file : Option Nat) (offset count : Int) (dt : String) : M Elem := do
  seek file offset
  let size ← liftExcept ((heapItemsize? dt).elim (.error (.typeError "data type not understood")) .ok)
  let items ← fromfile (file.getD 0) size count
  if dt = "a" then pure (.text (items.map fun b => Char.ofNat (b.headD 0)))
  else match dt.toList with
    | c :: n => match numKind? c (digitsValue n) with
      | some k => pure (.nums (items.map (decodeBE k)))
      | none => throw (.typeError "data type not understood")
    | [] => throw (.typeError "data type not understood")

/-- `dummy[i][:] = dummy[i]*bscale+bzero` on a heap row of type `k`: the product and sum
are computed in `k`'s float format and stored back into `k`. -/
def scaleHeapRow (sf : ScaleFactors) (k : NumKind) : Elem → Except PyError Elem
  | .nums xs => .ok (.nums (xs.map fun x =>
      Num.cast k (.float (Flt.add k.format (Flt.mul k.format (x.toFlt k.format) sf.bscale) sf.bzero))))
  | _ => .error (.typeError "unsupported operand type(s) for *")

/-- Modelled from the spec: `_VLF` is not in the repository's files; a row of a logical
variable-length column holds `T` bytes as `True`. -/
def heapRowToBools : Elem → Except PyError Elem
  | .nums xs => .ok (.flags (xs.map (· = .int 84)))
  | _ => .error (.typeError "not a number")

/-- The `P` branch of `field`: every row is read from the heap at its descriptor's offset
plus `_heapoffset`, scaled when `TSCAL` or `TZERO` is declared, and a logical row is
compared with `'T'`. Each row reads the attributes `_heapoffset` and `_file`. -/
def decodeP (r : FitsRec) (sf : ScaleFactors) (dt : String) (raw : List Elem) :
    M (List Elem) := do
  let rows ← raw.mapM fun
    | .nums [.int count, .int offset] => do
      let heapoffset ← getAttr "_heapoffset" r.heapoffset
      let file ← getAttr "_file" r.file
      readHeap file (offset + heapoffset) count dt
    | _ => throw (.indexError "too many indices")
  let kind := match dt.toList with
    | c :: n => (numKind? c (digitsValue n)).getD (.int 1)
    | [] => .int 1
  let rows ← if sf.scale || sf.zero then liftExcept (rows.mapM (scaleHeapRow sf kind)) else pure rows
  if dt = "i1" then liftExcept (rows.mapM heapRowToBools) else pure rows

/-! ## `field` -/

/-- The body of `field` for an empty slot: the converted column to cache, or `none` when the
raw field is returned as it is. -/
def convertField (r : FitsRec) (indx : Nat) : M (Option (List Elem)) := do
  let raw ← readView (r.rawField indx)
  let c := r.coldefs.col indx
  match c.recformat with
  | .x nx => some <$> liftExcept (decodeX nx raw)
  | fmt => do
    let sf ← liftExcept (getScaleFactors r.coldefs indx)
    match fmt with
    | .p dt => some <$> decodeP r sf dt raw
    | _ =>
      if sf.str then pure none
      else do
        let tnull ← getAsciiTNull
        let (dummy, cached) ← if r.coldefs.isAscii
          then (·, true) <$> liftExcept (decodeAscii c tnull raw) else pure (raw, false)
        if sf.number && (sf.scale || sf.zero) then some <$> liftExcept (scaleColumn sf dummy)
        else if sf.bool then some <$> liftExcept (equalT dummy)
        else pure (if cached then some dummy else none)

/-- The dtype of the array `field` caches for column `indx`, of the raw field's shape: bits for
an `X` column, the objects of a `P` column's `_VLF`, `float64` for a scaled number, bools for a
logical column, and the `_fmap` type of an ASCII number. -/
def cacheDType (r : FitsRec) (indx : Nat) : DType :=
  let c := r.coldefs.col indx
  let count := match c.recformat.fieldType with
    | .num _ n => n
    | _ => 1
  match c.recformat, getScaleFactors r.coldefs indx with
  | .x nx, _ => .bools nx
  | .p _, _ => .obj
  | _, .ok sf =>
    if sf.number && (sf.scale || sf.zero) then (if count = 1 then .num (.float 8) else .nums (.float 8) count)
    else if sf.bool then (if count = 1 then .bool else .bools count)
    else match c.format.toList.head?.bind asciiNumKind? with
      | some k => .num k
      | none => .obj
  | _, .error _ => .obj

/-- `FITS_rec.field(key)`. -/
def FitsRec.field (self : Nat) (key : Key) : M View := do
  let r ← getRec self
  let indx ← liftExcept (getIndex r.coldefs.names key >>= pyIndex r.nfields)
  match ← getConv r.convert indx with
  | some v => pure v
  | none =>
    match ← convertField r indx with
    | some cells => do
      let v ← newArray (cacheDType r indx) cells
      setConv r.convert indx (some v)
      pure v
    | none => pure (r.rawField indx)

/-- A filled slot is returned as it is, and nothing changes. -/
theorem FitsRec.field_cached {self : Nat} {key : Key} {indx : Nat} {v : View} (st : Store)
    (hk : (getIndex (st.recs self).coldefs.names key >>= pyIndex (st.recs self).nfields) = .ok indx)
    (hc : st.conv (st.recs self).convert indx = some v) :
    FitsRec.field self key st = .ok v st := by
  simp [FitsRec.field, hk, hc]

end PyFits
