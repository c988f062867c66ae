import PyFits.Field

/-!
# `FITS_record`

A `FITS_record` is a window onto one row of a `FITS_rec`: the row `row` and the columns
`[start, end)`. It holds no data; reading and writing a cell goes through the table's
`field`. The constructor clamps `end` into `[1, _nfields]` (with `_nfields` for a
non-positive `endColumn`), and sets `start` to `_nfields + 1` when `startColumn` is past the
last column. A key is a column name, which must resolve into the window, or a position
`p`, which is taken as column `p + start` and checked against `end` only.
-/

namespace PyFits

/-- A `FITS_record`. -/
structure FitsRecord where
  array : Nat
  row : Int
  start : Int
  «end» : Int
  deriving DecidableEq, Repr

namespace FitsRecord

/-- `FITS_record(input, row, startColumn, endColumn)`, where `len` is `input._nfields`. -/
def init (input len : Nat) (row startColumn endColumn : Int) : FitsRecord where
  array := input
  row := row
  start := if startColumn > len then len + 1 else startColumn
  «end» := if endColumn ≤ 0 ∨ endColumn > len then len else endColumn

/-- `len(v)`, where `nfields` is `v.array._nfields`. -/
def len (v : FitsRecord) (nfields : Nat) : Int := min (v.end - v.start) nfields

/-- `v[i:j]`, which is `FITS_record(v.array, v.row, i, j)`. -/
def getSlice (v : FitsRecord) (nfields : Nat) (i j : Int) : FitsRecord :=
  init v.array nfields v.row i j

/-- The column a key of `__getitem__` and `__setitem__` resolves to. -/
def index (v : FitsRecord) (names : List String) : Key → Except PyError Int
  | .name s => do
    let indx ← getIndex names (.name s)
    if indx < v.start ∨ indx > v.end - 1 then
      throw (.keyError ("Key \x27" ++ s ++ "\x27 does not exist."))
    pure indx
  | .pos p =>
    if p + v.start > v.end - 1 then .error (.indexError "Index out of bounds") else .ok (p + v.start)

/-- `v[key]`: `self.array.field(indx)[self.row]`. -/
def getItem (v : FitsRecord) (key : Key) : M Elem := do
  let r ← getRec v.array
  let indx ← liftExcept (v.index r.coldefs.names key)
  let col ← FitsRec.field v.array (.pos indx)
  col.getItem v.row

/-- `v[key] = x`: `self.array.field(indx)[self.row] = x`. -/
def setItem (v : FitsRecord) (key : Key) (x : Elem) : M Unit := do
  let r ← getRec v.array
  let indx ← liftExcept (v.index r.coldefs.names key)
  let col ← FitsRec.field v.array (.pos indx)
  col.setItem v.row x

/-- The values `__str__` prints, in order: `self.array.field(idx)[self.row]` for every
`idx` in `range(self.array._nfields)` with `start ≤ idx < end`. -/
def str (v : FitsRecord) : M (List Elem) := do
  let r ← getRec v.array
  let window := (List.range r.nfields).filter fun (idx : Nat) => v.start ≤ idx ∧ (idx : Int) < v.end
  window.mapM fun (idx : Nat) => do
    let col ← FitsRec.field v.array (.pos idx)
    col.getItem v.row

end FitsRecord

end PyFits
