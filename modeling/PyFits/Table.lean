import PyFits.ScaleBack
import PyFits.Record

/-!
# Indexing and assigning rows of a `FITS_rec`

`t[name]` is `t.field(name)`, `t[i]` a `FITS_record` over row `i`. `t[s]` for a slice and
`t[a]` for an index array build a new `FITS_rec` (a view of the rows for a slice, a copy for
an index array) with a fresh `_convert` list and a fresh `ColDefs` object, copied from `t`'s
with the default table kind `'BinTableHDU'`: every field of `t` is touched first, and each slot
that is then filled holds `t`'s cached array indexed by the same key. Arrays derived by numpy
itself, `t.copy()` and `t.take(...)`, copy the rows, and `__array_finalize__` hands them `t`'s
`_convert` list and `_coldefs` object themselves. None of these arrays has `_heapoffset` or
`_file`: `__array_finalize__` sets them only for an array that is not a `FITS_rec`. `t[i] = x` writes a whole row from a `FITS_record`, a
tuple or a list, and `t[i:j] = xs` writes the rows of a range one by one.

A client of a table runs cell writes through `field` and through record views, and
`_scale_back`; `runOps` runs a sequence of them, catching the exceptions they raise.
-/

namespace PyFits

/-- A Python slice `start:stop:step`. -/
structure Slice where
  start : Option Int
  stop : Option Int
  step : Option Int
  deriving DecidableEq, Repr

/-- How `slice.indices(n)` brings a given start or stop into range for the step `step`: a
negative one counts from the end, and one out of range is clamped. -/
def Slice.clamp (n : Nat) (step x : Int) : Int :=
  if x < 0 then (if x + n < 0 then (if step < 0 then -1 else 0) else x + n)
  else if x ≥ n then (if step < 0 then n - 1 else n) else x

/-- `slice.indices(n)`: the first index, the step and the number of indices. -/
def Slice.indices (s : Slice) (n : Nat) : Except PyError (Int × Int × Nat) := do
  let step := s.step.getD 1
  if step = 0 then throw (.valueError "slice step cannot be zero")
  let start := (s.start.map (clamp n step)).getD (if step < 0 then n - 1 else 0)
  let stop := (s.stop.map (clamp n step)).getD (if step < 0 then -1 else n)
  let len : Int := if step < 0 then (if stop < start then (start - stop - 1) / (-step) + 1 else 0)
    else (if start < stop then (stop - start - 1) / step + 1 else 0)
  pure (start, step, len.toNat)

/-- A key of `FITS_rec.__getitem__`. -/
inductive RecKey where
  | name (s : String)
  | slice (s : Slice)
  | indices (idx : List Int)
  | mask (m : List Bool)
  | int (i : Int)
  deriving DecidableEq, Repr

/-- What `FITS_rec.__getitem__` returns. -/
inductive Got where
  | column (v : View)
  | table (r : Nat)
  | record (v : FitsRecord)
  deriving DecidableEq, Repr

/-- The positions an index array selects among `n`. -/
def selectRows (n : Nat) : RecKey → Except PyError (List Nat)
  | .indices idx => idx.mapM (npIndex n)
  | .mask m =>
    if m.length = n then .ok ((List.range n).filter fun j => m.getD j false)
    else .error (.indexError "boolean index did not match indexed array")
  | _ => .ok []

/-- A fresh `[None] * n` list. -/
def newList : M Nat := fun st =>
  .ok st.next { st with next := st.next + 1, conv := setAt st.conv st.next fun _ => none }

/-- `np.ndarray.__getitem__(v, key)`: a view for a slice, a new array of the selected
elements for an index array. -/
def View.index (v : View) (key : RecKey) : M View :=
  match key with
  | .slice s => do
    let (start, step, len) ← liftExcept (s.indices v.len)
    pure (v.slice start step len)
  | key => do
    let sel ← liftExcept (selectRows v.len key)
    let xs ← fun st => .ok (sel.map fun (j : Nat) => st.mem v.base (v.pos j)) st
    newArray v.dtype xs

/-- A new record buffer holding rows `sel` of `r`, every field copied. -/
def copyRows (r : FitsRec) (sel : List Nat) : M Nat := do
  let b ← alloc
  fun st => .ok b <| (List.range r.nfields).foldl (fun st' (f : Nat) =>
    st'.writeList ⟨.field b f, 0, 1, sel.length, (r.rawField f).dtype⟩
      (sel.map fun (j : Nat) => st.mem (.field r.buf f) ((r.rawField f).pos j))) st

/-- `self._coldefs._arrays[idx][key]`, for the length of the array it gives. -/
def indexArray (a : Option Nat) (key : RecKey) : Except PyError Nat :=
  match a, key with
  | none, _ => .error (.typeError "\x27NoneType\x27 object has no attribute \x27__getitem__\x27")
  | some n, .slice s => (fun (_, _, len) => len) <$> s.indices n
  | some n, key => List.length <$> selectRows n key

/-- The turn of `__getitem__`'s loop for column `idx` of the record `r`: the length of
`self._coldefs._arrays[idx][key]`, then `self.field(idx)` to touch the column, then `t`'s cached
array indexed by `key` into slot `idx` of the new list `l`, when that slot of `t` is filled. -/
def selectColumn (self : Nat) (r : FitsRec) (key : RecKey) (l idx : Nat) : M Nat := do
  let a ← liftExcept (pyGet r.coldefs.arrays idx >>= fun a => indexArray a key)
  let _ ← FitsRec.field self (.pos idx)
  match ← getConv r.convert idx with
  | some cv => setConv l idx (some (← cv.index key))
  | none => pure ()
  pure a

/-- `t[key]` for a slice or an index array. The new `ColDefs` object `ColDefs(self._coldefs)`
is held by the new table alone, so its `_arrays` and `_shape` are set in that table. -/
def FitsRec.select (self : Nat) (key : RecKey) : M Nat := do
  let r ← getRec self
  let (buf, offset, stride, len) ← match key with
    | .slice s => do
      let (start, step, len) ← liftExcept (s.indices r.len)
      pure (r.buf, r.offset + start * r.stride, r.stride * step, len)
    | key => do
      let sel ← liftExcept (selectRows r.len key)
      pure (← copyRows r sel, (0 : Int), (1 : Int), sel.length)
  let out ← alloc
  let cd ← alloc
  let l ← newList
  setRec out { r with
    buf := buf, offset := offset, stride := stride, len := len, convert := l,
    coldefs := { r.coldefs with tbtype := "BinTableHDU" }, cdId := cd, heapoffset := none, file := none }
  let arrays ← (List.range r.nfields).mapM (selectColumn self r key l)
  if r.nfields = 0 then throw (.nameError "local variable \x27dummy\x27 referenced before assignment")
  let o ← getRec out
  setRec out { o with coldefs := { o.coldefs with arrays := arrays.map some, shape := arrays.headD 0 } }
  pure out

/-- `FITS_rec.__getitem__(key)`. -/
def FitsRec.getItem (self : Nat) : RecKey → M Got
  | .name s => Got.column <$> FitsRec.field self (.name s)
  | .int i => do
    let r ← getRec self
    if i ≥ r.len then throw (.indexError "Index out of bounds")
    pure (.record (FitsRecord.init self r.nfields i 0 0))
  | key => Got.table <$> FitsRec.select self key

/-- `t.copy()`: a new buffer holding the rows, and `t`'s `_convert` list and `_coldefs` object
themselves. -/
def FitsRec.copy (self : Nat) : M Nat := do
  let r ← getRec self
  let b ← copyRows r (List.range r.len)
  let out ← alloc
  setRec out { r with buf := b, offset := 0, stride := 1, heapoffset := none, file := none }
  pure out

/-- `t.take(idx)`: a new buffer holding the rows `idx`, and `t`'s `_convert` list and `_coldefs`
object themselves. -/
def FitsRec.take (self : Nat) (idx : List Int) : M Nat := do
  let r ← getRec self
  let sel ← liftExcept (idx.mapM (npIndex r.len))
  let b ← copyRows r sel
  let out ← alloc
  setRec out { r with buf := b, offset := 0, stride := 1, len := sel.length, heapoffset := none, file := none }
  pure out

/-- A value assigned to a row. -/
inductive RowValue where
  | record (v : FitsRecord)
  | seq (xs : List Elem)
  | other
  deriving DecidableEq, Repr

/-- `FITS_rec.__setitem__(row, value)`. -/
def FitsRec.setItem (self : Nat) (row : Int) : RowValue → M Unit
  | .record v => do
    let r ← getRec self
    (List.range r.nfields).forM fun idx => do
      let name := (r.coldefs.col idx).name
      let x ← v.getItem (.name name)
      (← FitsRec.field self (.name name)).setItem row x
  | .seq xs => do
    let r ← getRec self
    if r.nfields = xs.length then
      (List.range r.nfields).forM fun idx => do
        (← FitsRec.field self (.pos idx)).setItem row (xs.getD idx default)
    else throw (.valueError ("Input tuple or list required to have " ++
      (showNat r.nfields).asString ++ " elements."))
  | .other => throw (.typeError "Assignment requires a FITS_record, tuple, or list as input.")

/-- `FITS_rec.__setslice__(start, end, value)`. -/
def FitsRec.setSlice (self : Nat) (start «end» : Int) (value : List RowValue) : M Unit := do
  let r ← getRec self
  let e := max 0 (min (r.len : Int) «end»)
  let s := max 0 start
  let e := min e (s + value.length)
  ((List.range (e - s).toNat).map fun (k : Nat) => s + k).forM fun idx =>
    FitsRec.setItem self idx (value.getD (idx - s).toNat .other)

/-- A store holding one table as object `0`: record buffer `0` holding `rows`, an empty
`_convert` list `0`, the `ColDefs` object `0` of kind `tbtype` with `columns` and `starts`,
whose arrays have one element a row, and file `0` holding the heap bytes `heap`, read from
offset `0`; `ASCIITNULL` is `0`. -/
def Store.ofTable (tbtype : String) (columns : List Column) (starts : List Int) (rows : List (List Elem))
    (heap : List Nat) : Store where
  mem := fun b p => match b with
    | .field 0 f => if 0 ≤ p then (rows.getD p.toNat []).getD f default else default
    | _ => default
  conv := fun _ _ => none
  recs := fun _ => ⟨0, 0, 1, rows.length, 0,
    ⟨tbtype, columns, starts, columns.map fun _ => some rows.length, rows.length⟩, 0, some 0, 0, some (some 0)⟩
  files := fun _ => ⟨heap, 0⟩
  next := 1
  asciiTNull := 0

/-! ## Clients -/

/-- One step of a client of a table. -/
inductive Op where
  | setCell (r : Nat) (key : Key) (row : Int) (x : Elem)
  | setRecordCell (v : FitsRecord) (key : Key) (x : Elem)
  | scaleBack (r : Nat)
  deriving DecidableEq, Repr

/-- `r.field(key)[row] = x`, `v[key] = x`, or `r._scale_back()`. -/
def Op.run : Op → M Unit
  | .setCell r key row x => do (← FitsRec.field r key).setItem row x
  | .setRecordCell v key x => v.setItem key x
  | .scaleBack r => FitsRec.scaleBack r

/-- `r.field(key)[row]`, a client's read of a cell. -/
def getCell (r : Nat) (key : Key) (row : Int) : M Elem := do (← FitsRec.field r key).getItem row

/-- `op` writes a cell through table `r`: through `r.field(key)` or a record view of `r`. -/
def Op.IsCellWriteOf (r : Nat) : Op → Prop
  | .setCell r' _ _ _ => r' = r
  | .setRecordCell v _ _ => v.array = r
  | .scaleBack _ => False

instance (r : Nat) : DecidablePred (Op.IsCellWriteOf r)
  | .setCell r' _ _ _ => inferInstanceAs (Decidable (r' = r))
  | .setRecordCell v _ _ => inferInstanceAs (Decidable (v.array = r))
  | .scaleBack _ => inferInstanceAs (Decidable False)

/-- The store after a step, whether it returned or raised. -/
def Op.exec (op : Op) (st : Store) : Store := final op.run st

/-- The store after a sequence of steps, each exception caught. -/
def runOps (ops : List Op) (st : Store) : Store := ops.foldl (fun st op => op.exec st) st

end PyFits
