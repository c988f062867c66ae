import PyFits.Column
import Mathlib.Tactic.Ring
import Mathlib.Data.List.Forall2

/-!
# Objects, views and the store

`FITS_rec` is a numpy record array: a strided view of rows of a record buffer. Its
conversion cache `_convert` is a Python list, held by reference, of `None` or numpy arrays,
and a cached array is itself a view of an array object. Row slicing builds views that share
storage, `__array_finalize__` hands a derived array its parent's `_convert` list itself, and
a method that raises part-way keeps the writes it made before. So the model is an object
store: record buffers, cache arrays, `_convert` lists, `FITS_rec` objects and files, each
named by a number; a numpy array is a view `(base, offset, stride, len, dtype)` whose element
`i` lives at position `offset + i * stride` of its base, and which converts an assigned value
to its dtype. A `ColDefs` object is named by a number too: a table holds the values of its
descriptor set and the number of the object, and a write to the object is made in every table
that holds it. A method is an `EStateM` computation
over the store whose error result carries the store as the exception left it.
-/

namespace PyFits

/-- Where a numpy array keeps its elements: field `indx` of the record buffer `buf`, or a
standalone array. -/
inductive Base where
  | field (buf indx : Nat)
  | arr (id : Nat)
  deriving DecidableEq, Repr

/-- A strided one-dimensional numpy view of elements of type `dtype`. -/
structure View where
  base : Base
  offset : Int
  stride : Int
  len : Nat
  dtype : DType
  deriving DecidableEq, Repr

namespace View

/-- The position of element `i` in the base. -/
def pos (v : View) (i : Int) : Int := v.offset + i * v.stride

/-- The view `v[start::step]` of `len` elements. -/
def slice (v : View) (start step : Int) (len : Nat) : View :=
  ⟨v.base, v.offset + start * v.stride, v.stride * step, len, v.dtype⟩

@[simp] theorem slice_base (v : View) (start step : Int) (len : Nat) :
    (v.slice start step len).base = v.base := rfl

@[simp] theorem slice_len (v : View) (start step : Int) (len : Nat) :
    (v.slice start step len).len = len := rfl

@[simp] theorem slice_dtype (v : View) (start step : Int) (len : Nat) :
    (v.slice start step len).dtype = v.dtype := rfl

theorem slice_pos (v : View) (start step : Int) (len : Nat) (i : Int) :
    (v.slice start step len).pos i = v.pos (start + i * step) := by
  simp only [pos, slice]
  ring

/-- Distinct elements of a view with a nonzero stride lie at distinct positions. -/
theorem pos_injective {v : View} (hs : v.stride ≠ 0) {i j : Int} (h : v.pos i = v.pos j) : i = j := by
  simp only [pos, add_right_inj] at h
  exact Int.eq_of_mul_eq_mul_right hs h

end View

/-- A file object: its bytes and its read position. -/
structure FileObj where
  data : List Nat
  pos : Nat
  deriving DecidableEq, Repr

/-- The attributes of a `FITS_rec` object: the record buffer it views and which of its rows
(row `i` is buffer row `offset + i * stride`), its `_convert` list, its `_coldefs` (the values,
and `cdId`, the number of the object), `_heapoffset`, `_heapsize` and `_file`. `_heapoffset` and
`_file` are `none` where the attribute was never set, as in an array `__array_finalize__`
derives from another `FITS_rec`; `_file` may be set to `None`. -/
structure FitsRec where
  buf : Nat
  offset : Int
  stride : Int
  len : Nat
  convert : Nat
  coldefs : ColDefs
  cdId : Nat
  heapoffset : Option Int
  heapsize : Int
  file : Option (Option Nat)
  deriving DecidableEq, Repr

instance : Inhabited FitsRec := ⟨⟨0, 0, 1, 0, 0, ⟨"", [], [], [], 0⟩, 0, none, 0, none⟩⟩

namespace FitsRec

/-- `_nfields`. -/
def nfields (r : FitsRec) : Nat := r.coldefs.columns.length

/-- `rec.recarray.field(self, indx)`: field `indx` of the record's rows, of the dtype of the
column's record format. -/
def rawField (r : FitsRec) (indx : Nat) : View :=
  ⟨.field r.buf indx, r.offset, r.stride, r.len, (r.coldefs.col indx).recformat.fieldType.dtype⟩

@[simp] theorem rawField_base (r : FitsRec) (indx : Nat) :
    (r.rawField indx).base = .field r.buf indx := rfl

@[simp] theorem rawField_len (r : FitsRec) (indx : Nat) : (r.rawField indx).len = r.len := rfl

@[simp] theorem rawField_dtype (r : FitsRec) (indx : Nat) :
    (r.rawField indx).dtype = (r.coldefs.col indx).recformat.fieldType.dtype := rfl

end FitsRec

/-- `f` with the value at `a` replaced by `v`: an attribute or list assignment. -/
def setAt {α β : Type} [DecidableEq α] (f : α → β) (a : α) (v : β) : α → β :=
  fun x => if x = a then v else f x

@[simp] theorem setAt_same {α β : Type} [DecidableEq α] (f : α → β) (a : α) (v : β) :
    setAt f a v a = v := if_pos rfl

@[simp] theorem setAt_ne {α β : Type} [DecidableEq α] (f : α → β) {a x : α} (v : β) (h : x ≠ a) :
    setAt f a v x = f x := if_neg h

@[simp] theorem setAt_eq_self {α β : Type} [DecidableEq α] (f : α → β) (a : α) : setAt f a (f a) = f :=
  funext fun x => by by_cases h : x = a <;> simp [setAt, h]

/-- The objects a run of the methods reads and writes. `asciiTNull` is the module global
`ASCIITNULL` of `pyfits.column`, the number a null ASCII cell reads as. -/
structure Store where
  mem : Base → Int → Elem
  conv : Nat → Nat → Option View
  recs : Nat → FitsRec
  files : Nat → FileObj
  next : Nat
  asciiTNull : Int

/-- A method: a computation over the store that returns a value or raises. -/
abbrev M := EStateM PyError Store

namespace Store

/-- The store after writing `x` at position `p` of `b`. -/
def write (st : Store) (b : Base) (p : Int) (x : Elem) : Store :=
  { st with mem := setAt st.mem b (setAt (st.mem b) p x) }

@[simp] theorem write_mem (st : Store) (b b' : Base) (p p' : Int) (x : Elem) :
    (st.write b p x).mem b' p' = if b' = b ∧ p' = p then x else st.mem b' p' := by
  by_cases hb : b' = b
  · subst hb
    by_cases hp : p' = p <;> simp [write, hp]
  · simp [write, hb]

@[simp] theorem write_conv (st : Store) (b : Base) (p : Int) (x : Elem) :
    (st.write b p x).conv = st.conv := rfl

@[simp] theorem write_recs (st : Store) (b : Base) (p : Int) (x : Elem) :
    (st.write b p x).recs = st.recs := rfl

@[simp] theorem write_next (st : Store) (b : Base) (p : Int) (x : Elem) :
    (st.write b p x).next = st.next := rfl

/-- The elements of a view. -/
def read (st : Store) (v : View) : List Elem :=
  (List.range v.len).map fun (i : Nat) => st.mem v.base (v.pos i)

/-- The store after writing `xs` into a view from element `i` on. -/
def writeFrom (st : Store) (v : View) (i : Nat) : List Elem → Store
  | [] => st
  | x :: xs => writeFrom (st.write v.base (v.pos i) x) v (i + 1) xs

@[simp] theorem writeFrom_conv (st : Store) (v : View) (i : Nat) (xs : List Elem) :
    (st.writeFrom v i xs).conv = st.conv := by
  induction xs generalizing st i <;> simp [writeFrom, *]

@[simp] theorem writeFrom_recs (st : Store) (v : View) (i : Nat) (xs : List Elem) :
    (st.writeFrom v i xs).recs = st.recs := by
  induction xs generalizing st i <;> simp [writeFrom, *]

@[simp] theorem writeFrom_next (st : Store) (v : View) (i : Nat) (xs : List Elem) :
    (st.writeFrom v i xs).next = st.next := by
  induction xs generalizing st i <;> simp [writeFrom, *]

@[simp] theorem writeFrom_asciiTNull (st : Store) (v : View) (i : Nat) (xs : List Elem) :
    (st.writeFrom v i xs).asciiTNull = st.asciiTNull := by
  induction xs generalizing st i <;> simp [writeFrom, write, *]

theorem writeFrom_mem_of_ne (st : Store) (v : View) (i : Nat) (xs : List Elem) {b : Base} {p : Int}
    (h : ∀ k < xs.length, ¬ (b = v.base ∧ p = v.pos ((i + k : Nat) : Int))) :
    (st.writeFrom v i xs).mem b p = st.mem b p := by
  induction xs generalizing st i with
  | nil => rfl
  | cons x xs ih =>
    simp only [writeFrom]
    rw [ih _ (i + 1) fun k hk => by
      have h' := h (k + 1) (by simp only [List.length_cons]; omega)
      rwa [show i + (k + 1) = i + 1 + k by omega] at h']
    have h0 := h 0 (by simp)
    simp only [Nat.add_zero] at h0
    rw [write_mem, if_neg h0]

/-- Element `j` of the written list is at position `i + j` of a view with a nonzero stride. -/
theorem writeFrom_mem_at (st : Store) (v : View) (hs : v.stride ≠ 0) :
    ∀ (i : Nat) (xs : List Elem) (j : Nat) (hj : j < xs.length),
      (st.writeFrom v i xs).mem v.base (v.pos ((i + j : Nat) : Int)) = xs[j] := by
  intro i xs
  induction xs generalizing st i with
  | nil => intro j hj; simp at hj
  | cons x xs ih =>
    intro j hj
    simp only [writeFrom]
    cases j with
    | zero =>
      rw [writeFrom_mem_of_ne _ _ _ _ fun k _ hk => by
        have := View.pos_injective hs hk.2
        omega]
      simp
    | succ j =>
      have h := ih (st.write v.base (v.pos i) x) (i + 1) j (by simpa using hj)
      rwa [show i + 1 + j = i + (j + 1) by omega] at h

/-- The store after writing `xs` into a view, element `i` to position `i`. -/
def writeList (st : Store) (v : View) (xs : List Elem) : Store := st.writeFrom v 0 xs

@[simp] theorem writeList_conv (st : Store) (v : View) (xs : List Elem) :
    (st.writeList v xs).conv = st.conv := writeFrom_conv st v 0 xs

@[simp] theorem writeList_recs (st : Store) (v : View) (xs : List Elem) :
    (st.writeList v xs).recs = st.recs := writeFrom_recs st v 0 xs

@[simp] theorem writeList_next (st : Store) (v : View) (xs : List Elem) :
    (st.writeList v xs).next = st.next := writeFrom_next st v 0 xs

@[simp] theorem writeList_asciiTNull (st : Store) (v : View) (xs : List Elem) :
    (st.writeList v xs).asciiTNull = st.asciiTNull := writeFrom_asciiTNull st v 0 xs

theorem writeList_mem_at (st : Store) (v : View) (hs : v.stride ≠ 0) (xs : List Elem) (j : Nat)
    (hj : j < xs.length) : (st.writeList v xs).mem v.base (v.pos j) = xs[j] := by
  simpa using writeFrom_mem_at st v hs 0 xs j hj

theorem writeFrom_mem_of_base_ne (st : Store) (v : View) (i : Nat) (xs : List Elem) {b : Base}
    (hb : b ≠ v.base) (p : Int) : (st.writeFrom v i xs).mem b p = st.mem b p :=
  writeFrom_mem_of_ne st v i xs fun _ _ h => hb h.1

/-- Writing into every element what it already holds changes nothing. -/
theorem writeFrom_of_eq (v : View) :
    ∀ (st : Store) (i : Nat) (xs : List Elem),
      (∀ k (hk : k < xs.length), st.mem v.base (v.pos ((i + k : Nat) : Int)) = xs[k]) →
        st.writeFrom v i xs = st
  | st, _, [], _ => rfl
  | st, i, x :: xs, h => by
    have h0 : st.write v.base (v.pos i) x = st := by
      have hx := h 0 (by simp)
      simp only [Nat.add_zero, List.getElem_cons_zero] at hx
      simp only [write, ← hx, setAt_eq_self]
    simp only [writeFrom, h0]
    exact writeFrom_of_eq v st (i + 1) xs fun k hk => by
      simpa [show i + (k + 1) = i + 1 + k by omega] using h (k + 1) (by simp; omega)

/-- A view reads back the list written into it. -/
theorem read_writeList (st : Store) (v : View) (hs : v.stride ≠ 0) (xs : List Elem)
    (hl : v.len = xs.length) : (st.writeList v xs).read v = xs := by
  refine List.ext_getElem (by simp [read, hl]) fun i _ h2 => ?_
  simp only [read, List.getElem_map, List.getElem_range]
  exact writeList_mem_at st v hs xs i h2

end Store

/-- The exception a method raises from a store, if it raises. -/
def raised {α : Type} (m : M α) (st : Store) : Option PyError :=
  match m st with
  | .ok _ _ => none
  | .error e _ => some e

/-- The value a method returns from a store, if it returns. -/
def returned {α : Type} (m : M α) (st : Store) : Option α :=
  match m st with
  | .ok a _ => some a
  | .error _ _ => none

/-- The store a method leaves, whether it returns or raises. -/
def final {α : Type} (m : M α) (st : Store) : Store :=
  match m st with
  | .ok _ st' => st'
  | .error _ st' => st'

/-! ## Primitive methods -/

def liftExcept {α : Type} : Except PyError α → M α
  | .ok a => pure a
  | .error e => throw e

def getRec (r : Nat) : M FitsRec := fun st => .ok (st.recs r) st

def setRec (r : Nat) (x : FitsRec) : M Unit :=
  fun st => .ok () { st with recs := setAt st.recs r x }

/-- The store after the `ColDefs` object `id` takes the values `cd`: every table holding it
sees them. -/
def Store.setColDefs (st : Store) (id : Nat) (cd : ColDefs) : Store :=
  { st with recs := fun r => if (st.recs r).cdId = id then { st.recs r with coldefs := cd } else st.recs r }

@[simp] theorem Store.setColDefs_conv (st : Store) (id : Nat) (cd : ColDefs) :
    (st.setColDefs id cd).conv = st.conv := rfl

@[simp] theorem Store.setColDefs_mem (st : Store) (id : Nat) (cd : ColDefs) :
    (st.setColDefs id cd).mem = st.mem := rfl

@[simp] theorem Store.setColDefs_files (st : Store) (id : Nat) (cd : ColDefs) :
    (st.setColDefs id cd).files = st.files := rfl

@[simp] theorem Store.setColDefs_next (st : Store) (id : Nat) (cd : ColDefs) :
    (st.setColDefs id cd).next = st.next := rfl

@[simp] theorem Store.setColDefs_asciiTNull (st : Store) (id : Nat) (cd : ColDefs) :
    (st.setColDefs id cd).asciiTNull = st.asciiTNull := rfl

/-- A write to the `ColDefs` object `id`. -/
def setColDefs (id : Nat) (cd : ColDefs) : M Unit := fun st => .ok () (st.setColDefs id cd)

def getConv (l indx : Nat) : M (Option View) := fun st => .ok (st.conv l indx) st

/-- `_convert[indx] = v`. -/
def setConv (l indx : Nat) (v : Option View) : M Unit :=
  fun st => .ok () { st with conv := setAt st.conv l (setAt (st.conv l) indx v) }

/-- A fresh object number. -/
def alloc : M Nat := fun st => .ok st.next { st with next := st.next + 1 }

/-- The elements of a view, as a list. -/
def readView (v : View) : M (List Elem) := fun st => .ok (st.read v) st

section Apply

variable {α : Type} (st : Store)

/-! The primitives run on a store, for symbolic execution by `simp`. -/

@[simp] theorem pure_apply (a : α) : (pure a : M α) st = .ok a st := rfl

@[simp] theorem throw_apply (e : PyError) : (throw e : M α) st = .error e st := rfl

@[simp] theorem liftExcept_ok (a : α) : liftExcept (.ok a) st = .ok a st := rfl

@[simp] theorem liftExcept_error (e : PyError) : (liftExcept (.error e) : M α) st = .error e st :=
  rfl

@[simp] theorem getRec_apply (r : Nat) : getRec r st = .ok (st.recs r) st := rfl

@[simp] theorem setRec_apply (r : Nat) (x : FitsRec) :
    setRec r x st = .ok () { st with recs := setAt st.recs r x } := rfl

@[simp] theorem setColDefs_apply (id : Nat) (cd : ColDefs) :
    setColDefs id cd st = .ok () (st.setColDefs id cd) := rfl

@[simp] theorem getConv_apply (l indx : Nat) : getConv l indx st = .ok (st.conv l indx) st := rfl

@[simp] theorem setConv_apply (l indx : Nat) (v : Option View) :
    setConv l indx v st =
      .ok () { st with conv := setAt st.conv l (setAt (st.conv l) indx v) } :=
  rfl

@[simp] theorem alloc_apply : alloc st = .ok st.next { st with next := st.next + 1 } := rfl

@[simp] theorem readView_apply (v : View) : readView v st = .ok (st.read v) st := rfl

variable {β : Type} (k : α → M β)

@[simp] theorem throw_bind (e : PyError) : (throw e : M α) >>= k = throw e := rfl

@[simp] theorem liftExcept_ok_bind (a : α) : liftExcept (.ok a) >>= k = k a := rfl

@[simp] theorem liftExcept_error_bind (e : PyError) : liftExcept (.error e) >>= k = throw e := rfl

@[simp] theorem getRec_bind (r : Nat) (k : FitsRec → M β) : (getRec r >>= k) st = k (st.recs r) st :=
  rfl

@[simp] theorem setRec_bind (r : Nat) (x : FitsRec) (k : Unit → M β) :
    (setRec r x >>= k) st = k () { st with recs := setAt st.recs r x } := rfl

@[simp] theorem setColDefs_bind (id : Nat) (cd : ColDefs) (k : Unit → M β) :
    (setColDefs id cd >>= k) st = k () (st.setColDefs id cd) := rfl

@[simp] theorem getConv_bind (l indx : Nat) (k : Option View → M β) :
    (getConv l indx >>= k) st = k (st.conv l indx) st := rfl

@[simp] theorem readView_bind (v : View) (k : List Elem → M β) :
    (readView v >>= k) st = k (st.read v) st := rfl

end Apply

/-- numpy's indexing of a view of `n` elements: a negative index counts from the end. -/
def npIndex (n : Nat) (i : Int) : Except PyError Nat :=
  if 0 ≤ i ∧ i < n then .ok i.toNat
  else if -(n : Int) ≤ i ∧ i < 0 then .ok (i + n).toNat
  else .error (.indexError "index out of bounds")

theorem npIndex_lt {n : Nat} {i : Int} {j : Nat} (h : npIndex n i = .ok j) : j < n := by
  simp only [npIndex] at h
  split_ifs at h <;> simp only [Except.ok.injEq, reduceCtorEq] at h <;> omega

/-- `v[i]`. -/
def View.getItem (v : View) (i : Int) : M Elem := fun st =>
  match npIndex v.len i with
  | .ok j => .ok (st.mem v.base (v.pos j)) st
  | .error e => .error e st

/-- `v[i] = x`: the index is checked, then `x` is converted to the array's dtype, and a value
that does not convert raises before anything is written. -/
def View.setItem (v : View) (i : Int) (x : Elem) : M Unit := fun st =>
  match npIndex v.len i with
  | .ok j =>
    match v.dtype.cast x with
    | .ok y => .ok () (st.write v.base (v.pos j) y)
    | .error e => .error e st
  | .error e => .error e st

/-- `v[i] = x` changes only memory. -/
theorem View.final_setItem (v : View) (i : Int) (x : Elem) (st : Store) :
    ∃ mem, final (v.setItem i x) st = { st with mem := mem } := by
  unfold final View.setItem
  cases npIndex v.len i with
  | error e => exact ⟨st.mem, rfl⟩
  | ok j =>
    cases v.dtype.cast x with
    | error e => exact ⟨st.mem, rfl⟩
    | ok y => exact ⟨_, rfl⟩

section SetItem

variable (v : View) (i : Int) (x : Elem) (st : Store)

@[simp] theorem View.final_setItem_recs : (final (v.setItem i x) st).recs = st.recs := by
  obtain ⟨mem, h⟩ := View.final_setItem v i x st
  rw [h]

@[simp] theorem View.final_setItem_conv : (final (v.setItem i x) st).conv = st.conv := by
  obtain ⟨mem, h⟩ := View.final_setItem v i x st
  rw [h]

@[simp] theorem View.final_setItem_next : (final (v.setItem i x) st).next = st.next := by
  obtain ⟨mem, h⟩ := View.final_setItem v i x st
  rw [h]

@[simp] theorem View.final_setItem_files : (final (v.setItem i x) st).files = st.files := by
  obtain ⟨mem, h⟩ := View.final_setItem v i x st
  rw [h]

@[simp] theorem View.final_setItem_asciiTNull : (final (v.setItem i x) st).asciiTNull = st.asciiTNull := by
  obtain ⟨mem, h⟩ := View.final_setItem v i x st
  rw [h]

/-- `v[i] = x` on an index in range writes the element `x` casts to, or raises before writing. -/
theorem View.setItem_of_index {j : Nat} (hj : npIndex v.len i = .ok j) :
    v.setItem i x st = match v.dtype.cast x with
      | .ok y => .ok () (st.write v.base (v.pos j) y)
      | .error e => .error e st := by
  simp only [View.setItem, hj]

end SetItem

/-- `v[:] = xs`, with numpy's broadcasting of a single element. The elements are stored as they
are given: every array `_scale_back` assigns is already of the field's type (its counts and
offsets wrapped to `int32`, its numbers cast by `astype`, its bytes below 256). -/
def View.setAll (v : View) (xs : List Elem) : M Unit := do
  let ys ← liftExcept (broadcast v.len xs)
  fun st => .ok () (st.writeList v ys)

/-- A new array of dtype `dt` holding `xs`, as `numpy.array(xs, dtype)` builds it. -/
def newArray (dt : DType) (xs : List Elem) : M View := do
  let id ← alloc
  let v : View := ⟨.arr id, 0, 1, xs.length, dt⟩
  fun st => .ok v (st.writeList v xs)

/-! ## Reasoning about methods -/

section Methods

variable {α β : Type} {m : M α} {k : α → M β} {st st' : Store}

theorem bind_ok {a : α} (h : m st = .ok a st') : (m >>= k) st = k a st' := by
  simp only [bind, EStateM.bind, h]

theorem bind_error {e : PyError} (h : m st = .error e st') : (m >>= k) st = .error e st' := by
  simp only [bind, EStateM.bind, h]

theorem bind_ok_inv {b : β} (h : (m >>= k) st = .ok b st') : ∃ a st1, m st = .ok a st1 ∧ k a st1 = .ok b st' := by
  match hm : m st with
  | .ok a st1 => rw [bind_ok hm] at h; exact ⟨a, st1, rfl, h⟩
  | .error e st1 => rw [bind_error hm] at h; cases h

theorem final_ok {a : α} (h : m st = .ok a st') : final m st = st' := by
  simp only [final, h]

theorem final_error {e : PyError} (h : m st = .error e st') : final m st = st' := by
  simp only [final, h]

/-- A method that returns a value returns it with the store it leaves. -/
theorem ok_final_of_returned {a : α} (h : returned m st = some a) : m st = .ok a (final m st) := by
  unfold returned at h
  unfold final
  split at h <;> simp_all

theorem final_bind_ok {a : α} (h : m st = .ok a st') : final (m >>= k) st = final (k a) st' := by
  simp only [final, bind_ok h]

theorem raised_bind_error {e : PyError} (h : m st = .error e st') : raised (m >>= k) st = some e := by
  simp only [raised, bind_error h]

theorem raised_bind_ok {a : α} (h : m st = .ok a st') : raised (m >>= k) st = raised (k a) st' := by
  simp only [raised, bind_ok h]

theorem getRec_ok {r : Nat} {a : FitsRec} (h : getRec r st = .ok a st') : a = st.recs r ∧ st' = st := by
  simp only [getRec_apply, EStateM.Result.ok.injEq] at h
  exact ⟨h.1.symm, h.2.symm⟩

theorem getConv_ok {l indx : Nat} {a : Option View} (h : getConv l indx st = .ok a st') :
    a = st.conv l indx ∧ st' = st := by
  simp only [getConv_apply, EStateM.Result.ok.injEq] at h
  exact ⟨h.1.symm, h.2.symm⟩

end Methods

/-- `m` keeps the stores of `I` in `I`, whether it returns or raises. -/
def Stays (I : Store → Prop) {α : Type} (m : M α) : Prop := ∀ st, I st → I (final m st)

section Stays

variable {I : Store → Prop} {α β : Type}

/-- A method that leaves the store as it found it, such as a read. -/
theorem stays_of_final {m : M α} (h : ∀ st, final m st = st) : Stays I m := by
  intro st hst
  rwa [h]

theorem stays_pure (a : α) : Stays I (pure a : M α) := stays_of_final fun _ => rfl

theorem stays_throw (e : PyError) : Stays I (throw e : M α) := stays_of_final fun _ => rfl

/-- A raise ends the method: what would have run after it is never looked at. -/
theorem stays_throw_bind (e : PyError) (k : α → M β) : Stays I (throw e >>= k) := stays_throw e

theorem stays_liftExcept (x : Except PyError α) : Stays I (liftExcept x) :=
  stays_of_final fun _ => by cases x <;> rfl

theorem stays_getRec (r : Nat) : Stays I (getRec r) := stays_of_final fun _ => rfl

theorem stays_getConv (l indx : Nat) : Stays I (getConv l indx) := stays_of_final fun _ => rfl

theorem stays_readView (v : View) : Stays I (readView v) := stays_of_final fun _ => rfl

/-- Sequencing: the continuation need only keep `I` for the values `m` returns from a store
of `I`. -/
theorem stays_bind {m : M α} {k : α → M β} (hm : Stays I m)
    (hk : ∀ st a st', I st → m st = .ok a st' → Stays I (k a)) : Stays I (m >>= k) := by
  intro st hst
  have h := hm st hst
  match hr : m st with
  | .ok a st' =>
    rw [final_ok hr] at h
    rw [final_bind_ok hr]
    exact hk st a st' hst hr st' h
  | .error e st' =>
    rw [final_error hr] at h
    rwa [final_error (bind_error hr)]

theorem stays_map {m : M α} (f : α → β) (hm : Stays I m) : Stays I (f <$> m) := by
  intro st hst
  have h := hm st hst
  match hr : m st with
  | .ok a st' => rw [final_ok hr] at h; rwa [final_ok (show (f <$> m) st = .ok (f a) st' by
      simp only [Functor.map, EStateM.map, hr])]
  | .error e st' => rw [final_error hr] at h; rwa [final_error (show (f <$> m) st = .error e st' by
      simp only [Functor.map, EStateM.map, hr])]

/-- Both arms of a condition, for the automation that runs through a method: cheaper than
`split` on an `if` whose arms hold the rest of the method. -/
theorem stays_ite {c : Prop} [Decidable c] {a b : M α} (ha : Stays I a) (hb : Stays I b) :
    Stays I (if c then a else b) := by
  split
  exacts [ha, hb]

/-- A relation that holds from the store `m` leaves to itself, and that every continuation
keeps, holds from there to the store `m >>= k` leaves. -/
theorem final_bind_of_stays {R : Store → Store → Prop} {m : M α} {k : α → M β} {st : Store}
    (hrefl : R (final m st) (final m st)) (hk : ∀ a, Stays (R (final m st)) (k a)) :
    R (final m st) (final (m >>= k) st) := by
  match h : m st with
  | .ok a st' =>
    rw [final_bind_ok h]
    rw [final_ok h] at hrefl hk ⊢
    exact hk a st' hrefl
  | .error e st' =>
    rw [final_error (bind_error h), final_error h]
    rwa [final_error h] at hrefl

theorem stays_forM {xs : List β} {f : β → M PUnit} (h : ∀ x ∈ xs, Stays I (f x)) :
    Stays I (xs.forM f) := by
  induction xs with
  | nil => exact stays_pure _
  | cons x xs ih =>
    rw [List.forM_cons']
    exact stays_bind (h x (List.mem_cons_self x xs))
      fun _ _ _ _ _ => ih fun y hy => h y (List.mem_cons_of_mem x hy)

theorem stays_mapM {γ : Type} {f : β → M γ} :
    ∀ {xs : List β}, (∀ x ∈ xs, Stays I (f x)) → Stays I (xs.mapM f)
  | [], _ => stays_pure _
  | x :: xs, h => by
    rw [List.mapM_cons]
    exact stays_bind (h x (List.mem_cons_self x xs)) fun _ _ _ _ _ =>
      stays_bind (stays_mapM fun y hy => h y (List.mem_cons_of_mem x hy)) fun _ _ _ _ _ => stays_pure _

/-- A loop over `range n` that returns has kept an invariant of the number of turns done, when
every turn that returns keeps it. -/
theorem forM_range_ok {J : Nat → Store → Prop} {f : Nat → M PUnit} :
    ∀ {n : Nat}, (∀ c < n, ∀ st st', J c st → f c st = .ok ⟨⟩ st' → J (c + 1) st') →
      ∀ {st st' : Store}, J 0 st → (List.range n).forM f st = .ok ⟨⟩ st' → J n st'
  | 0, _, st, st', h0, h => by
    simp only [List.range_zero, List.forM_nil', pure_apply, EStateM.Result.ok.injEq, true_and] at h
    exact h ▸ h0
  | n + 1, hf, st, st', h0, h => by
    rw [List.range_succ, List.forM_append] at h
    obtain ⟨_, st1, h1, h2⟩ := bind_ok_inv h
    simp only [List.forM_cons', List.forM_nil', bind_pure_unit] at h2
    exact hf n (Nat.lt_succ_self n) st1 st' (forM_range_ok (fun c hc => hf c (Nat.lt_succ_of_lt hc)) h0 h1) h2

/-- The same for a loop that collects a value from each turn. -/
theorem mapM_range_ok {γ : Type} {J : Nat → Store → Prop} {f : Nat → M γ} :
    ∀ {n : Nat}, (∀ c < n, ∀ st a st', J c st → f c st = .ok a st' → J (c + 1) st') →
      ∀ {st st' : Store} {as : List γ}, J 0 st → (List.range n).mapM f st = .ok as st' → J n st'
  | 0, _, st, st', _, h0, h => by
    simp only [List.range_zero, List.mapM_nil, pure_apply, EStateM.Result.ok.injEq] at h
    exact h.2 ▸ h0
  | n + 1, hf, st, st', _, h0, h => by
    rw [List.range_succ, List.mapM_append] at h
    obtain ⟨_, st1, h1, h2⟩ := bind_ok_inv h
    obtain ⟨_, st2, h3, h4⟩ := bind_ok_inv h2
    rw [List.mapM_cons] at h3
    obtain ⟨_, st3, h5, h6⟩ := bind_ok_inv h3
    simp only [List.mapM_nil, pure_bind, pure_apply, EStateM.Result.ok.injEq] at h4 h6
    rw [← h4.2, ← h6.2]
    exact hf n (Nat.lt_succ_self n) st1 _ st3 (mapM_range_ok (fun c hc => hf c (Nat.lt_succ_of_lt hc)) h0 h1) h5

/-- A method that only lifts an `Except` returns what it holds and changes nothing. -/
theorem liftExcept_ok_inv {α : Type} {x : Except PyError α} {a : α} {s s' : Store} (h : liftExcept x s = .ok a s') :
    x = .ok a ∧ s' = s := by
  cases x with
  | error e => cases h
  | ok b =>
    rw [liftExcept_ok, EStateM.Result.ok.injEq] at h
    exact ⟨congrArg Except.ok h.1, h.2.symm⟩

/-- Every value `m` returns satisfies `P`. -/
def Returns {α : Type} (P : α → Prop) (m : M α) : Prop := ∀ st a st', m st = .ok a st' → P a

section Returns

variable {α β : Type} {P : β → Prop}

theorem returns_true (m : M β) : Returns (fun _ => True) m := fun _ _ _ _ => trivial

theorem returns_pure {b : β} (h : P b) : Returns P (pure b) := by
  intro st a st' hr
  simp only [pure_apply, EStateM.Result.ok.injEq] at hr
  exact hr.1 ▸ h

theorem returns_throw (e : PyError) : Returns P (throw e) := by
  intro st a st' hr
  simp at hr

theorem returns_liftExcept {x : Except PyError β} (h : ∀ b, x = .ok b → P b) : Returns P (liftExcept x) := by
  intro st a st' hr
  cases x with
  | error e => simp at hr
  | ok b =>
    simp only [liftExcept_ok, EStateM.Result.ok.injEq] at hr
    exact hr.1 ▸ h b rfl

theorem returns_bind {Q : α → Prop} {m : M α} {k : α → M β} (hm : Returns Q m)
    (hk : ∀ a, Q a → Returns P (k a)) : Returns P (m >>= k) := by
  intro st b st' hr
  match h : m st with
  | .ok a st1 => rw [bind_ok h] at hr; exact hk a (hm st a st1 h) st1 b st' hr
  | .error e st1 => rw [bind_error h] at hr; simp at hr

theorem returns_map {m : M α} (f : α → β) (h : Returns (fun a => P (f a)) m) : Returns P (f <$> m) := by
  intro st b st' hr
  simp only [Functor.map, EStateM.map] at hr
  split at hr
  · next a s heq =>
    simp only [EStateM.Result.ok.injEq] at hr
    exact hr.1 ▸ h st a s heq
  · simp at hr

theorem returns_mapM_length {f : α → M β} : ∀ {xs : List α}, Returns (fun ys => ys.length = xs.length) (xs.mapM f)
  | [] => returns_pure rfl
  | x :: xs => by
    rw [List.mapM_cons]
    exact returns_bind (returns_true _) fun _ _ => returns_bind returns_mapM_length fun _ h =>
      returns_pure (by simp [h])

theorem returns_mapM {f : α → M β} {xs : List α} (hf : ∀ x ∈ xs, Returns P (f x)) :
    Returns (fun ys => ∀ y ∈ ys, P y) (xs.mapM f) := by
  induction xs with
  | nil => exact returns_pure fun y hy => absurd hy (List.not_mem_nil y)
  | cons x xs ih =>
    rw [List.mapM_cons]
    refine returns_bind (hf x (List.mem_cons_self x xs)) fun b hb => ?_
    refine returns_bind (ih fun y hy => hf y (List.mem_cons_of_mem x hy)) fun bs hbs => ?_
    exact returns_pure fun y hy => (List.mem_cons.mp hy).elim (fun h => h ▸ hb) (hbs y)

end Returns

theorem except_mapM_of_forall₂ {α β : Type} {f : α → Except PyError β} {xs : List α} {ys : List β}
    (h : List.Forall₂ (fun x y => f x = .ok y) xs ys) : xs.mapM f = .ok ys := by
  induction h with
  | nil => rfl
  | cons hxy _ ih => rw [List.mapM_cons, hxy, ih]; rfl

theorem except_forall₂_of_mapM {α β : Type} {f : α → Except PyError β} :
    ∀ {xs : List α} {ys : List β}, xs.mapM f = .ok ys → List.Forall₂ (fun x y => f x = .ok y) xs ys
  | [], ys, h => by
    simp only [List.mapM_nil, pure, Except.pure, Except.ok.injEq] at h
    exact h ▸ .nil
  | x :: xs, ys, h => by
    rw [List.mapM_cons] at h
    cases hx : f x <;> cases hxs : xs.mapM f <;>
      simp only [hx, hxs, bind, Except.bind, pure, Except.pure, Except.ok.injEq, reduceCtorEq] at h
    exact h ▸ .cons hx (except_forall₂_of_mapM hxs)

theorem except_mapM_length {α β : Type} {f : α → Except PyError β} {xs : List α} {ys : List β}
    (h : xs.mapM f = .ok ys) : ys.length = xs.length :=
  (except_forall₂_of_mapM h).length_eq.symm

theorem except_mapM_forall {α β : Type} {P : β → Prop} {f : α → Except PyError β} :
    ∀ {xs : List α} {ys : List β}, (∀ x ∈ xs, ∀ y, f x = .ok y → P y) → xs.mapM f = .ok ys →
      ∀ y ∈ ys, P y
  | [], ys, _, h => by simp only [List.mapM_nil, pure, Except.pure, Except.ok.injEq] at h; simp [← h]
  | x :: xs, ys, hf, h => by
    rw [List.mapM_cons] at h
    match hx : f x, h with
    | .ok b, h =>
      match hxs : xs.mapM f, h with
      | .ok bs, h =>
        simp only [hx, hxs, bind, Except.bind, pure, Except.pure, Except.ok.injEq] at h
        subst h
        intro y hy
        exact (List.mem_cons.mp hy).elim (fun e => e ▸ hf x (List.mem_cons_self x xs) b hx)
          (except_mapM_forall (fun x' hx' => hf x' (List.mem_cons_of_mem x hx')) hxs y)
      | .error e, h => simp [hx, hxs, bind, Except.bind] at h
    | .error e, h => simp [hx, bind, Except.bind] at h

/-- A loop raises when one of its turns raises from every store of an invariant that every turn
keeps. -/
theorem raised_forM_of_mem {xs : List β} {f : β → M PUnit} {c : β} (hstay : ∀ x, Stays I (f x))
    (hraise : ∀ st, I st → raised (f c) st ≠ none) (hc : c ∈ xs) :
    ∀ st, I st → raised (xs.forM f) st ≠ none := by
  induction xs with
  | nil => exact absurd hc (List.not_mem_nil c)
  | cons x xs ih =>
    intro st hst
    rw [List.forM_cons']
    match h : f x st with
    | .error e st' => simp [raised_bind_error h]
    | .ok a st' =>
      rw [raised_bind_ok h]
      rcases List.mem_cons.mp hc with rfl | hc
      · exact absurd (by simp [raised, h]) (hraise st hst)
      · have hst' : I st' := by simpa only [final_ok h] using hstay x st hst
        exact ih hc st' hst'

end Stays

end PyFits
