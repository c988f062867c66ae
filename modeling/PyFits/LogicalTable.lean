import PyFits.RowAssign
import PyFits.ScaleBackFrame
import PyFits.SliceView
import PyFits.Isolation

/-!
# A table is a grid of logical values

Behind `field`, a table is a grid: column `k`, row `i` holds one logical value, the element at
row `i` of the array `field(k)` returns. The store holds that grid in raw fields and cached
arrays. Once every column is settled (its slot filled, or a column `field` never caches), every
filled slot holds an array of its own with one element per row, and distinct cells are apart,
the clients of the table see a plain grid: `t.field(key)[row]` resolves the key among the
columns and the row among the rows and returns the grid's value there; `t.field(key)[row] = x`
and `v[key] = x` for a record view `v` of `t` set that one value to `x` cast to the dtype of the
column's array, as numpy's `__setitem__` casts it, and change nothing when the cast raises; and
`_scale_back()` leaves every value and every dtype as it is, since it writes only the raw fields
of columns read through their cache.

The grid machine below is the abstract model; `cells` reads the grid a store holds, and
`runOps_refines` shows that over any sequence of such steps the store holds the grid the machine
computes, and the conditions above still hold.

A table gets there through `t[key]`: for a slice, an index array or a mask, `__getitem__`
touches every column through `field` before it builds the new table, and `field` fills an empty
slot with a new array of one element a row. So from a table just opened, or any table whose
filled slots are such arrays and whose cells are apart, `t[key]` leaves `t` a grid
(`select_grid`).

A slice `u = t[start::step]` is a second window on the same grid when each column `t` reads
raw is also read raw in `u`, whose descriptors say `BinTableHDU` (`RawInSlice`): its row `i` is
`t`'s row `start + i * step`, in the raw fields and in the cached arrays alike. Over any run of
writes through both tables, a write through `u` lands on that row of `t`'s grid, and a read
through `u` returns it (`slice_refines`).
-/

namespace PyFits.LogicalTable

open FieldCache RowAssign ScaleBackFrame RecordWindow SliceView

/-! ## The grid machine -/

/-- Values by column and row. -/
abbrev Grid := Nat → Nat → Elem

/-- `g` with the value at column `k`, row `i` replaced by `x`. -/
def Grid.set (g : Grid) (k i : Nat) (x : Elem) : Grid := fun k' i' => if k' = k ∧ i' = i then x else g k' i'

/-- The cell `t.field(key)[row]` reaches in a table with record `r`: the column `key` resolves
to as `field` resolves it, and the row `row` resolves to among `r.len` rows as numpy does. -/
def locate (r : FitsRec) (key : Key) (row : Int) : Except PyError (Nat × Nat) := do
  let k ← getIndex r.coldefs.names key >>= pyIndex r.nfields
  let i ← npIndex r.len row
  pure (k, i)

/-- The cell `(k, i)` and the value numpy stores there for `x`: `x` cast to the dtype of column `k`
given by `dt`, or `none` when the cast raises. -/
def castAt (dt : Nat → DType) (k i : Nat) (x : Elem) : Option (Nat × Nat × Elem) :=
  match (dt k).cast x with
  | .ok y => some (k, i, y)
  | .error _ => none

/-- The cell and the value a client step writes in a table with record `r` and column dtypes `dt`,
or `none` when it raises before writing (at the key, the row or the cast) or writes no cell. A
record view resolves its key in its window first. -/
def target (r : FitsRec) (dt : Nat → DType) : Op → Option (Nat × Nat × Elem)
  | .setCell _ key row x =>
    match locate r key row with
    | .ok (k, i) => castAt dt k i x
    | .error _ => none
  | .setRecordCell v key x =>
    match v.index r.coldefs.names key >>= fun p => locate r (.pos p) v.row with
    | .ok (k, i) => castAt dt k i x
    | .error _ => none
  | .scaleBack _ => none

/-- One step of the grid machine of a table with record `r` and column dtypes `dt`. -/
def Grid.step (r : FitsRec) (dt : Nat → DType) (g : Grid) (op : Op) : Grid :=
  match target r dt op with
  | some (k, i, x) => g.set k i x
  | none => g

/-- Two records of one table with the same columns and the same number of rows. -/
def SameShape (r r' : FitsRec) : Prop := r'.coldefs.columns = r.coldefs.columns ∧ r'.len = r.len

theorem SameShape.trans {r r' r'' : FitsRec} (h1 : SameShape r r') (h2 : SameShape r' r'') : SameShape r r'' :=
  ⟨h2.1.trans h1.1, h2.2.trans h1.2⟩

/-- Keys and rows resolve by the columns and the number of rows only. -/
theorem SameShape.locate_eq {r r' : FitsRec} (h : SameShape r r') : locate r' = locate r := by
  funext key row
  simp only [locate, ColDefs.names, FitsRec.nfields, h.1, h.2]

theorem SameShape.step_eq {r r' : FitsRec} (h : SameShape r r') (dt : Nat → DType) :
    Grid.step r' dt = Grid.step r dt := by
  funext g op
  simp only [Grid.step, target, h.locate_eq, ColDefs.names, h.1]

/-! ## The grid a store holds -/

/-- The grid table `t` holds in `st`: at column `k`, row `i`, the element of the array `field(k)`
returns, the cached array or else the raw field. -/
def cells (st : Store) (t : Nat) : Grid := fun k i => st.mem (fieldView st t k).base ((fieldView st t k).pos i)

/-- The dtype of the array `field(k)` returns for each column `k` of table `t`: a write through
the column casts its value to it. -/
def dtypes (st : Store) (t : Nat) : Nat → DType := fun k => (fieldView st t k).dtype

/-- The store after a write of table `t` that `target` names: the element of the cell set to the
value, or nothing. -/
def writeCell (st : Store) (t : Nat) : Option (Nat × Nat × Elem) → Store
  | some (k, i, y) => st.write (fieldView st t k).base ((fieldView st t k).pos i) y
  | none => st

/-- What keeps table `t` a grid: every column settled, every filled slot an array of its own
with one element per row, and distinct cells apart. -/
structure Inv (st : Store) (t : Nat) : Prop where
  settled : Settled st t
  aligned : CacheAligned st t
  apart : CellsApart st t

/-- What a read or a write through table `t` needs: every column settled, and the array `field`
returns for each column holding one element a row. A grid has it, and so has a slice of a grid. -/
structure Reads (st : Store) (t : Nat) : Prop where
  settled : Settled st t
  len : ∀ k < (st.recs t).nfields, (fieldView st t k).len = (st.recs t).len

/-- A client step of table `t`: a cell write through `t.field` or through a record view of `t`,
or `t._scale_back()`. -/
def OnTable (t : Nat) (op : Op) : Prop := op.IsCellWriteOf t ∨ op = .scaleBack t

instance (t : Nat) : DecidablePred (OnTable t) := fun _ => inferInstanceAs (Decidable (_ ∨ _))

section Store

variable {st : Store} {t : Nat}

theorem fieldView_columnView (st : Store) (t k : Nat) : ColumnView st t k (fieldView st t k) := by
  unfold fieldView ColumnView
  cases st.conv (st.recs t).convert k with
  | none => exact .inl rfl
  | some cv => exact .inr rfl

theorem Inv.fieldView_len (h : Inv st t) (k : Nat) : (fieldView st t k).len = (st.recs t).len := by
  unfold fieldView
  cases hc : st.conv (st.recs t).convert k with
  | none => rfl
  | some cv => exact (h.aligned k cv hc).1

theorem Inv.reads (h : Inv st t) : Reads st t := ⟨h.settled, fun k _ => h.fieldView_len k⟩

@[simp] theorem fieldView_write (b : Base) (p : Int) (x : Elem) (k : Nat) :
    fieldView (st.write b p x) t k = fieldView st t k := rfl

theorem dtypes_of_sameTables {st' : Store} (h : SameTables st st') (t : Nat) : dtypes st' t = dtypes st t := by
  funext k
  simp only [dtypes, fieldView, h.1, h.2]

theorem sameTables_trans {st1 st2 : Store} (h1 : SameTables st st1) (h2 : SameTables st1 st2) :
    SameTables st st2 :=
  ⟨h2.1.trans h1.1, h2.2.trans h1.2⟩

theorem Inv.write (h : Inv st t) (b : Base) (p : Int) (x : Elem) : Inv (st.write b p x) t :=
  ⟨h.settled, h.aligned, ⟨h.apart.old, h.apart.apart⟩⟩

/-- Writing the element of cell `(k, i)` sets that one value of the grid. -/
theorem cells_write (h : Inv st t) (k i : Nat) (x : Elem) :
    cells (st.write (fieldView st t k).base ((fieldView st t k).pos i) x) t = (cells st t).set k i x := by
  funext k' i'
  simp only [cells, fieldView_write, Store.write_mem, Grid.set]
  by_cases hki : k' = k ∧ i' = i
  · obtain ⟨rfl, rfl⟩ := hki
    simp
  · rw [if_neg hki, if_neg fun hbp => hki (h.apart.apart k' k _ _ i' i (fieldView_columnView st t k')
      (fieldView_columnView st t k) hbp.1 hbp.2)]

/-- A read resolves the key and the row and returns the grid's value there, and changes nothing. -/
theorem getCell_eq (h : Reads st t) (key : Key) (row : Int) :
    getCell t key row st =
      match locate (st.recs t) key row with
      | .ok (k, i) => .ok (cells st t k i) st
      | .error e => .error e st := by
  have hf := field_settled h.settled key
  unfold getCell locate
  cases hk : (getIndex (st.recs t).coldefs.names key >>= pyIndex (st.recs t).nfields) with
  | error e =>
    rw [hk] at hf
    rw [bind_error hf]
    rfl
  | ok k =>
    rw [hk] at hf
    rw [bind_ok hf]
    simp only [View.getItem, h.len k (index_lt hk)]
    cases npIndex (st.recs t).len row <;> rfl

/-- `t.field(key)[row] = x` writes `x`, cast to the column's dtype, to the element of the cell the
key and the row resolve to, or changes nothing when the key, the row or the cast raises. -/
theorem final_field_setItem (h : Reads st t) (key : Key) (row : Int) (x : Elem) :
    final (FitsRec.field t key >>= fun w => w.setItem row x) st =
      match locate (st.recs t) key row with
      | .ok (k, i) => writeCell st t (castAt (dtypes st t) k i x)
      | .error _ => st := by
  have hf := field_settled h.settled key
  unfold locate
  cases hk : (getIndex (st.recs t).coldefs.names key >>= pyIndex (st.recs t).nfields) with
  | error e =>
    rw [hk] at hf
    rw [final_error (bind_error hf)]
    rfl
  | ok k =>
    rw [hk] at hf
    rw [final_bind_ok hf]
    simp only [final, View.setItem, h.len k (index_lt hk)]
    cases npIndex (st.recs t).len row with
    | error e => rfl
    | ok i =>
      change _ = writeCell st t (castAt (dtypes st t) k i x)
      simp only [castAt, dtypes]
      cases (fieldView st t k).dtype.cast x <;> rfl

/-- A cell write of table `t` writes the value `target` names to its cell, or changes nothing. -/
theorem exec_cellWrite {op : Op} (h : Reads st t) (hop : op.IsCellWriteOf t) :
    op.exec st = writeCell st t (target (st.recs t) (dtypes st t) op) := by
  cases op with
  | setCell r key row x =>
    cases hop
    rw [Op.exec, Op.run, final_field_setItem h]
    simp only [target]
    cases locate (st.recs t) key row <;> rfl
  | setRecordCell v key x =>
    cases hop
    rw [Op.exec, Op.run]
    simp only [target]
    cases hi : v.index (st.recs v.array).coldefs.names key with
    | error e => simp only [final, (access_of_index_error v st x hi).2, bind, Except.bind, writeCell]
    | ok p =>
      rw [final, (access_of_index_ok v st x hi).2, ← final, final_field_setItem h]
      simp only [bind, Except.bind]
      cases locate (st.recs v.array) (.pos p) v.row <;> rfl
  | scaleBack r => cases hop

/-- A cell write keeps the invariant, the table's record and the dtypes of its columns, and sets
the value `target` names in the grid. -/
theorem exec_cellWrite_grid {op : Op} (h : Inv st t) (hop : op.IsCellWriteOf t) :
    Inv (op.exec st) t ∧ (op.exec st).recs t = st.recs t ∧ dtypes (op.exec st) t = dtypes st t ∧
      cells (op.exec st) t = Grid.step (st.recs t) (dtypes st t) (cells st t) op := by
  rw [exec_cellWrite h.reads hop, Grid.step]
  cases target (st.recs t) (dtypes st t) op with
  | none => exact ⟨h, rfl, rfl, rfl⟩
  | some w =>
    obtain ⟨k, i, x⟩ := w
    exact ⟨h.write _ _ _, rfl, rfl, cells_write h k i x⟩

/-- `_scale_back` changes no array `field` returns: the slots are as they were, and the raw
fields keep their place. -/
theorem fieldView_scaleBack (k : Nat) : fieldView (final (FitsRec.scaleBack t) st) t k = fieldView st t k := by
  have he := scaleBack_effect t st
  obtain ⟨n, e, -, -, hrec, -⟩ := he.table
  simp only [fieldView, he.conv, hrec]
  rfl

/-- The array `field` returns for a column is not the raw field of a materialized column: it is
a cached array, or the raw field of a column whose slot is empty. -/
theorem Inv.not_materialized (h : Inv st t) (k : Nat) : ¬ Materialized st t (fieldView st t k).base := by
  rintro ⟨j, hb, hj⟩
  unfold fieldView at hb
  cases hc : st.conv (st.recs t).convert k with
  | some cv =>
    obtain ⟨id, hid⟩ := (h.aligned k cv hc).2
    rw [hc, Option.getD_some, hid] at hb
    cases hb
  | none =>
    rw [hc, Option.getD_none, FitsRec.rawField_base] at hb
    cases hb
    rw [hc] at hj
    cases hj

/-- `_scale_back` keeps the invariant, the table's shape and the dtypes of its columns, and leaves
every value of the grid as it is, whether it returns or raises. -/
theorem scaleBack_grid (h : Inv st t) :
    Inv (final (FitsRec.scaleBack t) st) t ∧ SameShape (st.recs t) ((final (FitsRec.scaleBack t) st).recs t) ∧
      dtypes (final (FitsRec.scaleBack t) st) t = dtypes st t ∧ cells (final (FitsRec.scaleBack t) st) t = cells st t := by
  have he := scaleBack_effect t st
  obtain ⟨n, e, -, -, hrec, -⟩ := he.table
  refine ⟨⟨?_, ?_, ?_⟩, ⟨by rw [hrec]; rfl, by rw [hrec]; rfl⟩, funext fun k => by simp only [dtypes, fieldView_scaleBack], ?_⟩
  · intro indx hi hnone
    simp only [hrec, he.conv, withStarts, FitsRec.nfields] at hi hnone ⊢
    exact h.settled indx hi hnone
  · intro indx cv hcv
    simp only [hrec, he.conv, withStarts] at hcv ⊢
    exact h.aligned indx cv hcv
  · refine ⟨fun k w hw => ?_, fun k k' w w' i j hw hw' => ?_⟩
    · simp only [hrec, he.conv, he.next, withStarts] at hw ⊢
      exact h.apart.old k w hw
    · simp only [ColumnView, hrec, he.conv, withStarts] at hw hw'
      exact h.apart.apart k k' w w' i j hw hw'
  · funext k i
    simp only [cells, fieldView_scaleBack]
    exact Classical.byContradiction fun hne => h.not_materialized k (he.mem _ _ hne)

/-- One client step of table `t` keeps the invariant, the table's shape and the dtypes of its
columns, and changes the grid as the grid machine's step does. -/
theorem exec_grid {op : Op} (h : Inv st t) (hop : OnTable t op) :
    Inv (op.exec st) t ∧ SameShape (st.recs t) ((op.exec st).recs t) ∧ dtypes (op.exec st) t = dtypes st t ∧
      cells (op.exec st) t = Grid.step (st.recs t) (dtypes st t) (cells st t) op := by
  rcases hop with hw | rfl
  · obtain ⟨hi, hr, hd, hc⟩ := exec_cellWrite_grid h hw
    exact ⟨hi, ⟨by rw [hr], by rw [hr]⟩, hd, hc⟩
  · exact scaleBack_grid h

end Store

/-! ## Runs -/

/-- Over any run of client steps of table `t`, the invariant, the shape and the dtypes stay, and
the store holds the grid the grid machine computes from the grid it started with. -/
theorem runOps_grid (t : Nat) :
    ∀ (ops : List Op) (st : Store), (∀ op ∈ ops, OnTable t op) → Inv st t →
      Inv (runOps ops st) t ∧ SameShape (st.recs t) ((runOps ops st).recs t) ∧
        dtypes (runOps ops st) t = dtypes st t ∧
        cells (runOps ops st) t = ops.foldl (Grid.step (st.recs t) (dtypes st t)) (cells st t)
  | [], _, _, h => ⟨h, ⟨rfl, rfl⟩, rfl, rfl⟩
  | op :: ops, st, hops, h => by
    obtain ⟨h1, hs1, hd1, hc1⟩ := exec_grid h (hops op (List.mem_cons_self op ops))
    obtain ⟨h2, hs2, hd2, hc2⟩ :=
      runOps_grid t ops (op.exec st) (fun o ho => hops o (List.mem_cons_of_mem op ho)) h1
    refine ⟨h2, hs1.trans hs2, hd2.trans hd1, ?_⟩
    rw [runOps, List.foldl_cons, ← runOps, hc2, hc1, hd1, hs1.step_eq]
    rfl

section Opened

variable (tbtype : String) (columns : List Column) (starts : List Int) (rows : List (List Elem)) (heap : List Nat)

/-- A table just opened has no filled slot. -/
theorem cacheAligned_ofTable : CacheAligned (Store.ofTable tbtype columns starts rows heap) 0 := fun _ _ h => nomatch h

/-- The cells of a table just opened are its raw fields' cells, which are apart. -/
theorem cellsApart_ofTable : CellsApart (Store.ofTable tbtype columns starts rows heap) 0 where
  old _ _ h := nomatch h
  apart k k' w w' i j hw hw' hb hp := by
    rcases hw with rfl | h
    swap; exact nomatch h
    rcases hw' with rfl | h
    swap; exact nomatch h
    simp only [FitsRec.rawField, Store.ofTable, Base.field.injEq, true_and, View.pos] at hb hp
    exact ⟨hb, by omega⟩

/-- A table just opened whose columns `field` never caches is a grid. -/
theorem inv_ofTable (h : ∀ k < columns.length, Uncached ((Store.ofTable tbtype columns starts rows heap).recs 0).coldefs k) : Inv (Store.ofTable tbtype columns starts rows heap) 0 :=
  ⟨fun k hk _ => h k hk, cacheAligned_ofTable tbtype columns starts rows heap, cellsApart_ofTable tbtype columns starts rows heap⟩

end Opened

/-- On the two-by-two integer table: a write through a column name and a negative row, a
`_scale_back`, and a write through a record view. -/
def twoByTwoClient : List Op :=
  [.setCell 0 (.name "b") (-1) (.num (.int 9)), .scaleBack 0,
    .setRecordCell (FitsRecord.init 0 2 0 1 2) (.pos 0) (.num (.int 7))]

/-- Writing `2.5` into the `int32` column `a` stores `2`, as numpy's cast truncates it, and the
grid machine holds the same value; writing the text `abc` into column `b` raises in the cast and
leaves the grid as it is. -/
example :
    returned (getCell 0 (.pos 0) 0) (runOps [.setCell 0 (.pos 0) 0 (.num (.float (.fin 5 (-1))))] twoByTwo) =
      some (.num (.int 2)) ∧
    [Op.setCell 0 (.pos 0) 0 (.num (.float (.fin 5 (-1)))), .setCell 0 (.pos 1) 1 (.text "abc".toList)].foldl
      (Grid.step (twoByTwo.recs 0) (dtypes twoByTwo 0)) (cells twoByTwo 0) 0 0 = .num (.int 2) ∧
    [Op.setCell 0 (.pos 0) 0 (.num (.float (.fin 5 (-1)))), .setCell 0 (.pos 1) 1 (.text "abc".toList)].foldl
      (Grid.step (twoByTwo.recs 0) (dtypes twoByTwo 0)) (cells twoByTwo 0) 1 1 = .num (.int 4) := by
  decide

/-! ## Indexing touches every column -/

/-- A step that leaves table `t`'s record and cache list as they were, and only allocates. -/
structure Untouched (t : Nat) (s s' : Store) : Prop where
  recs : s'.recs t = s.recs t
  conv : s'.conv (s.recs t).convert = s.conv (s.recs t).convert
  next : s.next ≤ s'.next

section Touch

variable {st s s1 : Store} {t : Nat}

theorem Untouched.trans (h1 : Untouched t st s1) (h2 : Untouched t s1 s) : Untouched t st s :=
  ⟨h2.recs.trans h1.recs, by rw [← h1.recs, h2.conv, h1.recs, h1.conv], h1.next.trans h2.next⟩

theorem Untouched.cacheAligned (h : Untouched t s1 s) (hal : CacheAligned s1 t) : CacheAligned s t := by
  intro k cv hc
  rw [h.recs, h.conv] at hc
  rw [h.recs]
  exact hal k cv hc

theorem Untouched.cellsApart (h : Untouched t s1 s) (ha : CellsApart s1 t) : CellsApart s t := by
  have hv : ∀ {k w}, ColumnView s t k w → ColumnView s1 t k w := fun hw => by
    unfold ColumnView at hw ⊢
    rwa [h.recs, h.conv] at hw
  refine ⟨fun k w hw => ?_, fun k k' w w' i j hw hw' => ha.apart k k' w w' i j (hv hw) (hv hw')⟩
  rw [h.recs, h.conv] at hw
  obtain ⟨id, hid, hb⟩ := ha.old k w hw
  exact ⟨id, Nat.lt_of_lt_of_le hid h.next, hb⟩

/-- A view of table `t` after a new array of `n` elements is cached in the empty slot `indx` of
list `l`: a view from before, or the new array in that slot. -/
theorem columnView_fill {l indx n k : Nat} {dt : DType} {w : View} (hrecs : s.recs = st.recs)
    (hconv : s.conv = setAt st.conv l (setAt (st.conv l) indx (some ⟨.arr st.next, 0, 1, n, dt⟩)))
    (hw : ColumnView s t k w) :
    ColumnView st t k w ∨ (k = indx ∧ w = ⟨.arr st.next, 0, 1, n, dt⟩) := by
  rcases hw with rfl | hw
  · exact .inl (.inl (by rw [hrecs]))
  rw [hrecs, hconv] at hw
  by_cases hl : (st.recs t).convert = l
  · by_cases hk : k = indx
    · subst hl hk
      simp only [setAt_same, Option.some.injEq] at hw
      exact .inr ⟨rfl, hw.symm⟩
    · rw [hl, setAt_same, setAt_ne _ _ hk, ← hl] at hw
      exact .inl (.inr hw)
  · rw [setAt_ne _ _ hl] at hw
    exact .inl (.inr hw)

/-- Caching a new array, one element a position, in an empty slot keeps the cells of table `t`
apart. -/
theorem cellsApart_fill (ha : CellsApart st t) {l indx n : Nat} {dt : DType} (hc : st.conv l indx = none)
    (hrecs : s.recs = st.recs) (hnext : s.next = st.next + 1)
    (hconv : s.conv = setAt st.conv l (setAt (st.conv l) indx (some ⟨.arr st.next, 0, 1, n, dt⟩))) :
    CellsApart s t where
  old k w hw := by
    rw [hrecs, hconv] at hw
    rcases (conv_fill hc _ _ k w).2 hw with h | rfl
    · obtain ⟨id, hid, hb⟩ := ha.old k w h
      exact ⟨id, by omega, hb⟩
    · exact ⟨st.next, by omega, rfl⟩
  apart k k' w w' i j hw hw' hb hp := by
    have hfresh : ∀ {k w}, ColumnView st t k w → w.base ≠ .arr st.next := fun hv hb' =>
      ha.not_fresh hv (show Fresh st s _ from ⟨st.next, le_refl _, by omega, hb'⟩)
    rcases columnView_fill hrecs hconv hw with hw | ⟨rfl, rfl⟩ <;>
      rcases columnView_fill hrecs hconv hw' with hw' | ⟨rfl, rfl⟩
    · exact ha.apart k k' w w' i j hw hw' hb hp
    · exact absurd hb (hfresh hw)
    · exact absurd hb.symm (hfresh hw')
    · simp only [View.pos] at hp
      exact ⟨rfl, by omega⟩

/-- `field` keeps the cells of table `t` apart: the array it may cache is new, one element a
position. -/
theorem cellsApart_field {u : Nat} {key : Key} {v : View} {st' : Store} (ha : CellsApart st t)
    (h : FitsRec.field u key st = .ok v st') : CellsApart st' t := by
  simp only [FitsRec.field, getRec_bind] at h
  cases hk : (getIndex (st.recs u).coldefs.names key >>= pyIndex (st.recs u).nfields) with
  | error e => simp [hk] at h
  | ok indx =>
    simp only [hk, liftExcept_ok_bind, getConv_bind] at h
    have hfiles := convertField_files (st.recs u) indx st
    cases hc : st.conv (st.recs u).convert indx with
    | some w =>
      simp only [hc, pure_apply, EStateM.Result.ok.injEq] at h
      exact h.2 ▸ ha
    | none =>
      simp only [hc] at h
      match hcf : convertField (st.recs u) indx st with
      | .error e s1 => rw [bind_error hcf] at h; cases h
      | .ok none s1 =>
        simp only [bind_ok hcf, pure_apply, EStateM.Result.ok.injEq] at h
        rw [final_ok hcf] at hfiles
        rw [← h.2, hfiles]
        exact ⟨ha.old, ha.apart⟩
      | .ok (some cells) s1 =>
        rw [final_ok hcf] at hfiles
        rw [bind_ok hcf] at h
        simp only [newArray, alloc, setConv, bind, EStateM.bind, pure, EStateM.pure,
          EStateM.Result.ok.injEq] at h
        obtain ⟨-, rfl⟩ := h
        obtain ⟨hr, hn, hcv⟩ : s1.recs = st.recs ∧ s1.next = st.next ∧ s1.conv = st.conv := by
          rw [hfiles]
          exact ⟨rfl, rfl, rfl⟩
        exact @cellsApart_fill st _ t ha _ _ cells.length (cacheDType (st.recs u) indx) hc (by simp [hr]) (by simp [hn]) (by simp [hn, hcv])

/-- `np.ndarray.__getitem__` changes no table and no cache list: it may allocate a new array. -/
theorem index_untouched {v w : View} {key : RecKey} (h : v.index key s1 = .ok w s) : Untouched t s1 s := by
  unfold View.index at h
  split at h
  · next sl =>
    cases hi : sl.indices v.len with
    | error e => simp [hi, Functor.map, EStateM.map] at h
    | ok x =>
      simp only [hi, liftExcept_ok_bind, pure_apply, EStateM.Result.ok.injEq] at h
      exact h.2 ▸ ⟨rfl, rfl, le_rfl⟩
  · cases hs : selectRows v.len key with
    | error e => simp [hs] at h
    | ok sel =>
      simp only [hs, liftExcept_ok_bind, newArray, alloc, bind, EStateM.bind, EStateM.Result.ok.injEq] at h
      obtain ⟨-, rfl⟩ := h
      exact ⟨by simp, by simp, by simp⟩

/-- The rest of a turn of `__getitem__`'s loop over the columns, for a filled slot of `t`: the slot,
indexed by the key, goes into the new table's list `l`, which is not `t`'s. -/
theorem index_setConv_untouched {l c a b : Nat} {key : RecKey} {cv : View} (hl : l ≠ (s1.recs t).convert)
    (h : (cv.index key >>= fun w => setConv l c (some w) >>= fun _ => pure b) s1 = .ok a s) : Untouched t s1 s := by
  obtain ⟨w, s2, hw, hset⟩ := bind_ok_inv h
  have h2 : Untouched t s1 s2 := index_untouched hw
  rw [bind_ok (setConv_apply _ _ _ _), pure_apply, EStateM.Result.ok.injEq] at hset
  obtain ⟨-, rfl⟩ := hset
  refine h2.trans ⟨rfl, ?_, le_rfl⟩
  rw [h2.recs]
  exact setAt_ne _ _ hl.symm

/-- `__getitem__`'s loop over the columns of `t`, after the first `c`: `t`'s record is as it was
in `st`, its cache aligned, its cells apart, and its first `c` columns settled. -/
structure GridSoFar (st : Store) (t c : Nat) (s : Store) : Prop where
  recs : s.recs t = st.recs t
  aligned : CacheAligned s t
  apart : CellsApart s t
  settled : ∀ k < c, s.conv (st.recs t).convert k = none → Uncached (st.recs t).coldefs k

theorem GridSoFar.untouched {c : Nat} (hJ : GridSoFar st t c s1) (h : Untouched t s1 s) : GridSoFar st t c s :=
  ⟨h.recs.trans hJ.recs, h.cacheAligned hJ.aligned, h.cellsApart hJ.apart, fun k hk hnone =>
    hJ.settled k hk (by have hc := congrFun h.conv k; rw [hJ.recs] at hc; rw [← hc]; exact hnone)⟩

theorem GridSoFar.start (h : Untouched t st s) (hal : CacheAligned st t) (ha : CellsApart st t) :
    GridSoFar st t 0 s :=
  GridSoFar.untouched ⟨rfl, hal, ha, fun k hk => absurd hk (Nat.not_lt_zero k)⟩ h

/-- Once every column is settled, the loop has left `t` a grid. -/
theorem GridSoFar.inv (hJ : GridSoFar st t (st.recs t).nfields s) : Inv s t :=
  ⟨fun k hk hnone => by rw [hJ.recs] at hk hnone ⊢; exact hJ.settled k hk hnone, hJ.aligned, hJ.apart⟩

/-- One turn of the loop: `field(c)` settles column `c`, and the slot goes into the new table's
list `l`, which is not `t`'s. -/
theorem GridSoFar.turn {c l a : Nat} {key : RecKey} {s' : Store} (hJ : GridSoFar st t c s)
    (hc : c < (st.recs t).nfields) (hl : l ≠ (st.recs t).convert)
    (h : selectColumn t (st.recs t) key l c s = .ok a s') : GridSoFar st t (c + 1) s' := by
  obtain ⟨_, s0, hx, h⟩ := bind_ok_inv h
  rw [(liftExcept_ok_inv hx).2] at h
  obtain ⟨v, sa, hf, hrest⟩ := bind_ok_inv h
  obtain ⟨hrecs, hal1, hother, hnew⟩ := field_pos_settles hJ.aligned (by rw [hJ.recs]; exact hc) hf
  rw [getConv_bind] at hrest
  have hU : Untouched t sa s' := by
    cases hcv : sa.conv (st.recs t).convert c with
    | none =>
      rw [hcv] at hrest
      simp only [pure_bind, pure_apply, EStateM.Result.ok.injEq] at hrest
      exact hrest.2 ▸ ⟨rfl, rfl, le_rfl⟩
    | some cv =>
      rw [hcv] at hrest
      dsimp only at hrest
      exact index_setConv_untouched (by rw [hrecs, hJ.recs]; exact hl) hrest
  rw [hJ.recs] at hother hnew
  refine GridSoFar.untouched ⟨(congrFun hrecs t).trans hJ.recs, hal1, cellsApart_field hJ.apart hf,
    fun k hk hnone => ?_⟩ hU
  rcases Nat.lt_succ_iff_lt_or_eq.mp hk with hk | rfl
  · exact hJ.settled k hk (by rw [← hother _ _ (.inr (by omega))]; exact hnone)
  · exact hnew hnone

/-- What `__getitem__` does once the new table's rows are chosen, from a store that has left `t`
untouched: it builds the new table `out` with the new list `l`, touches every column of `t`
through `field`, whose slots go into `l`, and sets the new table's `_arrays`. When it returns,
`t` is a grid. -/
theorem select_rest_grid {key : RecKey} {R : Nat → Nat → FitsRec} {F : FitsRec → List Nat → FitsRec}
    {s1 st' : Store} {u : Nat} (hal : CacheAligned st t) (ha : CellsApart st t) (hnext : t < st.next)
    (hconv : (st.recs t).convert < st.next) (h1 : Untouched t st s1)
    (h : (do
      let out ← alloc
      let cd ← alloc
      let l ← newList
      setRec out (R l cd)
      let arrays ← (List.range (st.recs t).nfields).mapM (selectColumn t (st.recs t) key l)
      if (st.recs t).nfields = 0 then throw (PyError.nameError "local variable \x27dummy\x27 referenced before assignment")
      let o ← getRec out
      setRec out (F o arrays)
      pure out) s1 = .ok u st') : Inv st' t := by
  rw [bind_ok (alloc_apply s1), bind_ok (alloc_apply _), bind_ok (show newList _ = _ from rfl), setRec_bind] at h
  obtain ⟨_, s2, hloop, hend⟩ := bind_ok_inv h
  have hl : s1.next + 1 + 1 ≠ (st.recs t).convert := by have := h1.next; omega
  have ht : t ≠ s1.next := by have := h1.next; omega
  have hJ := mapM_range_ok (fun c hc _ _ _ hJ hturn => GridSoFar.turn hJ hc hl hturn)
    (GridSoFar.start (h1.trans ⟨by simp only [setAt_ne _ _ ht], by simp only [setAt_ne _ _ ht, h1.recs,
      setAt_ne _ _ hl.symm], by simp only []; omega⟩) hal ha) hloop
  split at hend
  · simp only [throw_bind, throw_apply, reduceCtorEq] at hend
  simp only [getRec_bind, setRec_bind, pure_apply, EStateM.Result.ok.injEq] at hend
  obtain ⟨-, rfl⟩ := hend
  refine GridSoFar.inv (hJ.untouched ?_)
  exact ⟨by simp only [setAt_ne _ _ ht], by simp only [setAt_ne _ _ ht], le_rfl⟩

/-- `t[key]` for a slice, an index array or a mask touches every column of `t` through `field`
before it builds the new table ("touch all fields to expand the original ._convert list"): when
it returns on a table whose filled slots are arrays of their own, one element a row, and whose
cells are apart, it leaves `t` a grid. A slice takes `t`'s buffer; an index array or a mask has
its rows copied into a new buffer first, which touches no table and no cache list. -/
theorem select_grid {key : RecKey} {u : Nat} {st' : Store} (hal : CacheAligned st t) (ha : CellsApart st t)
    (hnext : t < st.next) (hconv : (st.recs t).convert < st.next)
    (h : FitsRec.select t key st = .ok u st') : Inv st' t := by
  rw [FitsRec.select, getRec_bind] at h
  cases key
  case slice sl =>
    obtain ⟨⟨start, step, len⟩, s1, hi, h⟩ := bind_ok_inv h
    rw [(liftExcept_ok_inv hi).2] at h
    simp only [pure_bind] at h
    exact select_rest_grid hal ha hnext hconv ⟨rfl, rfl, le_rfl⟩ h
  all_goals
    obtain ⟨sel, s1, hi, h⟩ := bind_ok_inv h
    rw [(liftExcept_ok_inv hi).2] at h
    obtain ⟨s2, hcopy, hc2, hr2, hn2⟩ := Isolation.copyRows_ok (st.recs t) sel st
    rw [bind_ok hcopy] at h
    simp only [pure_bind] at h
    exact select_rest_grid hal ha hnext hconv ⟨by rw [hr2], by rw [hc2], by omega⟩ h

/-- `t[::-1]` on a table just opened, with a logical and an integer column, leaves it a grid. -/
theorem flagsAndCounts_reversed_grid :
    CacheAligned flagsAndCounts 0 ∧ CellsApart flagsAndCounts 0 ∧
    FitsRec.select 0 (.slice ⟨none, none, some (-1)⟩) flagsAndCounts =
      .ok 1 (final (FitsRec.select 0 (.slice ⟨none, none, some (-1)⟩)) flagsAndCounts) ∧
    Inv (final (FitsRec.select 0 (.slice ⟨none, none, some (-1)⟩)) flagsAndCounts) 0 :=
  have hal : CacheAligned flagsAndCounts 0 := cacheAligned_ofTable _ _ _ _ _
  have ha : CellsApart flagsAndCounts 0 := cellsApart_ofTable _ _ _ _ _
  have h := ok_final_of_returned
    (show returned (FitsRec.select 0 (.slice ⟨none, none, some (-1)⟩)) flagsAndCounts = some 1 by decide)
  ⟨hal, ha, h, select_grid hal ha (by decide) (by decide) h⟩

end Touch

/-! ## A slice and its table -/

/-- One step of the grid machine of `t` with a slice `u = t[start::step]` of it, `r` and `ru`
their records, `dt` and `dtu` the dtypes of their columns: a write through `u` sets the cell of
`t` that its cell is, at row `start + i * step`; every other step is one of `t`'s own. -/
def Grid.stepSlice (r ru : FitsRec) (dt dtu : Nat → DType) (u : Nat) (start step : Int) (g : Grid) (op : Op) :
    Grid :=
  if op.IsCellWriteOf u then
    match target ru dtu op with
    | some (k, i, x) => g.set k (start + i * step).toNat x
    | none => g
  else Grid.step r dt g op

/-- The cell a key and a row resolve to lies among the columns and the rows. -/
theorem locate_lt {r : FitsRec} {key : Key} {row : Int} {k i : Nat} (h : locate r key row = .ok (k, i)) :
    k < r.nfields ∧ i < r.len := by
  unfold locate at h
  cases hk : (getIndex r.coldefs.names key >>= pyIndex r.nfields) with
  | error e => rw [hk] at h; cases h
  | ok k' =>
    rw [hk] at h
    cases hi : npIndex r.len row with
    | error e => rw [hi] at h; cases h
    | ok i' =>
      rw [hi] at h
      cases h
      exact ⟨index_lt hk, npIndex_lt hi⟩

theorem castAt_cell {dt : Nat → DType} {k i k' i' : Nat} {x y : Elem} (h : castAt dt k i x = some (k', i', y)) :
    k' = k ∧ i' = i := by
  unfold castAt at h
  split at h
  · cases h
    exact ⟨rfl, rfl⟩
  · cases h

/-- The cell a step writes lies among the columns and the rows. -/
theorem target_lt {r : FitsRec} {dt : Nat → DType} {op : Op} {k i : Nat} {x : Elem}
    (h : target r dt op = some (k, i, x)) : k < r.nfields ∧ i < r.len := by
  cases op with
  | setCell _ key row _ =>
    simp only [target] at h
    split at h
    · next hl =>
      obtain ⟨rfl, rfl⟩ := castAt_cell h
      exact locate_lt hl
    · cases h
  | setRecordCell v key _ =>
    simp only [target] at h
    split at h
    · next hl =>
      obtain ⟨rfl, rfl⟩ := castAt_cell h
      cases hv : v.index r.coldefs.names key with
      | error e => simp [hv, bind, Except.bind] at hl
      | ok p =>
        simp only [hv, bind, Except.bind] at hl
        exact locate_lt hl
    · cases h
  | scaleBack _ => cases h

theorem cellWrite_table_eq {op : Op} {t u : Nat} (ht : op.IsCellWriteOf t) (hu : op.IsCellWriteOf u) :
    t = u := by
  cases op with
  | setCell => exact ht.symm.trans hu
  | setRecordCell => exact ht.symm.trans hu
  | scaleBack => exact ht.elim

section Slice

variable {st : Store} {t u : Nat} {start step : Int}

/-- A slice of a grid can be read and written through: its columns are settled, and each of its
arrays has one element a row. -/
theorem sliceOf_reads (hS : SliceOf st t u start step) : Reads st u :=
  ⟨hS.settled_slice, fun k hk => by rw [hS.fieldView_eq (hS.nfields ▸ hk), View.slice_len]⟩

/-- Cell `(k, i)` of the slice is cell `(k, start + i * step)` of its table. -/
theorem sliceOf_cells (hS : SliceOf st t u start step) {k i : Nat} (hk : k < (st.recs t).nfields)
    (hi : i < (st.recs u).len) : cells st u k i = cells st t k (start + i * step).toNat := by
  simp only [cells, hS.fieldView_eq hk, View.slice_base, View.slice_pos, Int.toNat_of_nonneg (hS.rows i hi).1]

/-- A cell write through the slice writes the value `target` names, cast to the dtype of the
slice's column, to the cell of `t` that its cell is. -/
theorem exec_slice_cellWrite (hS : SliceOf st t u start step) {op : Op} (hop : op.IsCellWriteOf u) :
    op.exec st =
      match target (st.recs u) (dtypes st u) op with
      | some (k, i, x) => st.write (fieldView st t k).base ((fieldView st t k).pos (start + i * step).toNat) x
      | none => st := by
  rw [exec_cellWrite (sliceOf_reads hS) hop]
  cases ht : target (st.recs u) (dtypes st u) op with
  | none => rfl
  | some w =>
    obtain ⟨k, i, x⟩ := w
    obtain ⟨hk, hi⟩ := target_lt ht
    rw [hS.nfields] at hk
    simp only [writeCell, hS.fieldView_eq hk, View.slice_base, View.slice_pos,
      Int.toNat_of_nonneg (hS.rows i hi).1]

/-- A cell write through `t` or through its slice `u` keeps `u` a slice of `t` and `t` a grid,
changes no table and no cache list, and changes `t`'s grid as the machine's step does. -/
theorem exec_slice_grid (hS : SliceOf st t u start step) (h : Inv st t) (hne : t ≠ u) {op : Op}
    (hop : op.IsCellWriteOf t ∨ op.IsCellWriteOf u) :
    SliceOf (op.exec st) t u start step ∧ Inv (op.exec st) t ∧ SameTables st (op.exec st) ∧
      cells (op.exec st) t =
        Grid.stepSlice (st.recs t) (st.recs u) (dtypes st t) (dtypes st u) u start step (cells st t) op := by
  have hsame : SameTables st (op.exec st) :=
    hop.elim (fun h' => FieldCache.exec_cellWrite h' h.settled) fun h' => FieldCache.exec_cellWrite h' hS.settled_slice
  have key : Inv (op.exec st) t ∧ cells (op.exec st) t =
      Grid.stepSlice (st.recs t) (st.recs u) (dtypes st t) (dtypes st u) u start step (cells st t) op := by
    rcases hop with ht | hu
    · obtain ⟨h1, -, -, h3⟩ := exec_cellWrite_grid h ht
      exact ⟨h1, by rw [Grid.stepSlice, if_neg fun hu => hne (cellWrite_table_eq ht hu), h3]⟩
    · rw [exec_slice_cellWrite hS hu, Grid.stepSlice, if_pos hu]
      cases target (st.recs u) (dtypes st u) op with
      | none => exact ⟨h, rfl⟩
      | some w =>
        obtain ⟨k, i, x⟩ := w
        exact ⟨h.write _ _ _, cells_write h k _ x⟩
  exact ⟨hS.of_sameTables hsame, key.1, hsame, key.2⟩

/-- Over any run of cell writes through `t` and through its slice `u`, `u` stays a slice of `t`
and `t` a grid, no table and no cache list changes, and the store holds the grid of `t` the
machine computes. -/
theorem runOps_slice_grid (hne : t ≠ u) :
    ∀ (ops : List Op) (st : Store), (∀ op ∈ ops, op.IsCellWriteOf t ∨ op.IsCellWriteOf u) →
      SliceOf st t u start step → Inv st t →
      SliceOf (runOps ops st) t u start step ∧ Inv (runOps ops st) t ∧ SameTables st (runOps ops st) ∧
        cells (runOps ops st) t =
          ops.foldl (Grid.stepSlice (st.recs t) (st.recs u) (dtypes st t) (dtypes st u) u start step) (cells st t)
  | [], st, _, hS, h => ⟨hS, h, ⟨rfl, rfl⟩, rfl⟩
  | op :: ops, st, hops, hS, h => by
    obtain ⟨hS1, h1, hs1, hc1⟩ := exec_slice_grid hS h hne (hops op (List.mem_cons_self op ops))
    obtain ⟨hS2, h2, hs2, hc2⟩ :=
      runOps_slice_grid hne ops (op.exec st) (fun o ho => hops o (List.mem_cons_of_mem op ho)) hS1 h1
    refine ⟨hS2, h2, sameTables_trans hs1 hs2, ?_⟩
    rw [runOps, List.foldl_cons, ← runOps, hc2, hc1, hs1.2, dtypes_of_sameTables hs1, dtypes_of_sameTables hs1]
    rfl

/-- `flagsAndCounts` after `u = t[::-1]`. -/
def flagsReversed : Store := final (FitsRec.getItem 0 (.slice ⟨none, none, some (-1)⟩)) flagsAndCounts

end Slice

end PyFits.LogicalTable
