import PyFits.FieldCache

/-!
# A row slice and its table read the same cells

`t[s]` for a slice `s` is a `FITS_rec` over the rows `start, start + step, …` of `t`'s record
buffer, with a new `_convert` list and a new descriptor set `ColDefs(t._coldefs)`, of kind
`BinTableHDU`. `__getitem__` touches every field of `t`, which fills each slot of `t` that
`field` caches, and gives the new table, for each filled slot of `t`, the same slice of `t`'s
cached array. From then on both tables are settled, and a cell write through either of them,
through `field` or through a record view, changes only memory. So row `i` of the slice and row
`start + i * step` of `t` are one cell, in every column, after any run of such writes.

This needs two things of `t`. `__getitem__` slices each cached array by the indices the slice
has for the array's own length, so the cached arrays of `t` must have one element per row, as
the arrays `field` builds do. And a column `field` returns raw in `t` must be returned raw under
the slice's binary descriptors too, as in every binary table: in an ASCII table a string column
with `TSCAL` is returned raw by `t` and converted by the slice.

The two tables do not save alike: the slice's `_scale_back` writes `t`'s buffer, and when `t`'s
own pass raises part-way the cells it has not reached keep what the slice wrote.
-/

namespace PyFits.SliceView

open FieldCache

/-! ## The rows of a slice -/

/-- The range a clamped start or stop lies in, for each sign of the step. -/
def InRange (n : Nat) (step a : Int) : Prop :=
  (0 < step → 0 ≤ a ∧ a ≤ n) ∧ (step < 0 → -1 ≤ a ∧ a < n)

theorem clamp_inRange (n : Nat) (step x : Int) : InRange n step (Slice.clamp n step x) := by
  unfold InRange Slice.clamp
  constructor <;> intro h <;> split_ifs <;> omega

theorem getD_clamp_inRange (n : Nat) (step : Int) (x : Option Int) (d : Int) (hd : InRange n step d) :
    InRange n step ((x.map (Slice.clamp n step)).getD d) := by
  cases x
  · exact hd
  · exact clamp_inRange n step _

theorem mul_le_of_le_ediv {i d m : Int} (hm : 0 < m) (hi : i ≤ d / m) : i * m ≤ d :=
  le_trans (Int.mul_le_mul_of_nonneg_right hi hm.le) (Int.ediv_mul_le d hm.ne')

/-- Every row a slice selects from `n` rows is one of them. -/
theorem indices_lt {s : Slice} {n : Nat} {start step : Int} {len : Nat}
    (h : s.indices n = .ok (start, step, len)) (i : Nat) (hi : i < len) :
    0 ≤ start + i * step ∧ start + i * step < n := by
  simp only [Slice.indices, bind, Except.bind] at h
  split at h
  · simp [throw, throwThe, MonadExceptOf.throw, Except.bind] at h
  · next hstep =>
    simp only [pure, Except.pure, Except.ok.injEq, Prod.mk.injEq] at h
    obtain ⟨rfl, rfl, hlen⟩ := h
    have hA := getD_clamp_inRange n (s.step.getD 1) s.start
      (if s.step.getD 1 < 0 then (n : Int) - 1 else 0) (by unfold InRange; split_ifs <;> omega)
    have hB := getD_clamp_inRange n (s.step.getD 1) s.stop
      (if s.step.getD 1 < 0 then -1 else (n : Int)) (by unfold InRange; split_ifs <;> omega)
    generalize s.step.getD 1 = step at *
    generalize (s.start.map (Slice.clamp n step)).getD (if step < 0 then (n : Int) - 1 else 0) = a at *
    generalize (s.stop.map (Slice.clamp n step)).getD (if step < 0 then -1 else (n : Int)) = b at *
    unfold InRange at hA hB
    rcases lt_or_gt_of_ne hstep with hneg | hpos
    · obtain ⟨ha1, ha2⟩ := hA.2 hneg
      obtain ⟨hb1, hb2⟩ := hB.2 hneg
      rw [if_pos hneg] at hlen
      split at hlen
      · have hq : (i : Int) ≤ (a - b - 1) / -step := by omega
        have hmul := mul_le_of_le_ediv (by omega) hq
        rw [Int.mul_neg] at hmul
        have h0 : (i : Int) * step ≤ 0 := Int.mul_nonpos_of_nonneg_of_nonpos (by omega) hneg.le
        omega
      · omega
    · obtain ⟨ha1, ha2⟩ := hA.1 hpos
      obtain ⟨hb1, hb2⟩ := hB.1 hpos
      rw [if_neg (by omega)] at hlen
      split at hlen
      · have hq : (i : Int) ≤ (b - a - 1) / step := by omega
        have hmul := mul_le_of_le_ediv hpos hq
        have h0 : 0 ≤ (i : Int) * step := Int.mul_nonneg (by omega) hpos.le
        omega
      · omega

/-! ## A slice of a table -/

/-- The columns that `field` returns raw in a table with the descriptors `cd`, it also returns
raw under `ColDefs(cd)`, the descriptors `__getitem__` gives a slice, whose `tbtype` is
`BinTableHDU`. -/
def RawInSlice (cd : ColDefs) : Prop :=
  ∀ k < cd.columns.length, Uncached cd k → Uncached { cd with tbtype := "BinTableHDU" } k

/-- Every binary table's columns are read the same way under the slice's descriptors. -/
theorem rawInSlice_of_binary {cd : ColDefs} (h : cd.tbtype = "BinTableHDU") : RawInSlice cd := by
  obtain ⟨tbtype, columns, starts, arrays, shape⟩ := cd
  dsimp only at h
  subst h
  exact fun _ _ hu => hu

/-- `Uncached` reads neither `_arrays` nor `_shape`. -/
theorem uncached_arrays {cd : ColDefs} {k : Nat} (arrays : List (Option Nat)) (shape : Nat) :
    Uncached { cd with arrays := arrays, shape := shape } k ↔ Uncached cd k :=
  Iff.rfl

/-- Table `u` is the rows `start, start + step, …` of table `t`: it views `t`'s record buffer,
with a descriptor set of its own holding `t`'s columns, and each of its slots is the same slice
of `t`'s slot. Both tables are settled, and `t`'s cached arrays have one element per row. -/
structure SliceOf (st : Store) (t u : Nat) (start step : Int) : Prop where
  buf : (st.recs u).buf = (st.recs t).buf
  offset : (st.recs u).offset = (st.recs t).offset + start * (st.recs t).stride
  stride : (st.recs u).stride = (st.recs t).stride * step
  coldefs : ∃ arrays shape, (st.recs u).coldefs =
    { (st.recs t).coldefs with tbtype := "BinTableHDU", arrays := arrays, shape := shape }
  rows : ∀ i < (st.recs u).len, 0 ≤ start + i * step ∧ start + i * step < (st.recs t).len
  slots : ∀ k < (st.recs t).nfields,
    (∃ cv, st.conv (st.recs t).convert k = some cv ∧
      st.conv (st.recs u).convert k = some (cv.slice start step (st.recs u).len)) ∨
    (st.conv (st.recs t).convert k = none ∧ st.conv (st.recs u).convert k = none)
  settled : Settled st t
  settled_slice : Settled st u
  aligned : CacheAligned st t

section SliceOf

variable {st st' : Store} {t u : Nat} {start step : Int}

theorem SliceOf.of_sameTables (h : SliceOf st t u start step) (hst : SameTables st st') :
    SliceOf st' t u start step := by
  obtain ⟨hconv, hrecs⟩ := hst
  obtain ⟨mem, conv, recs, files, next, tnull⟩ := st
  obtain ⟨mem', conv', recs', files', next', tnull'⟩ := st'
  dsimp only at hconv hrecs
  subst hconv hrecs
  exact ⟨h.buf, h.offset, h.stride, h.coldefs, h.rows, h.slots, h.settled, h.settled_slice, h.aligned⟩

theorem SliceOf.columns (h : SliceOf st t u start step) :
    (st.recs u).coldefs.columns = (st.recs t).coldefs.columns := by
  obtain ⟨_, _, hcd⟩ := h.coldefs
  rw [hcd]

theorem SliceOf.nfields (h : SliceOf st t u start step) : (st.recs u).nfields = (st.recs t).nfields := by
  simp only [FitsRec.nfields, h.columns]

/-- The slice's descriptors are binary, whatever `t`'s are. -/
theorem SliceOf.not_ascii (h : SliceOf st t u start step) : (st.recs u).coldefs.isAscii = false := by
  obtain ⟨_, _, hcd⟩ := h.coldefs
  rw [hcd]
  rfl

/-- The array `field` returns for a column of the slice is the slice of the array it returns for
the column of `t`. -/
theorem SliceOf.fieldView_eq (h : SliceOf st t u start step) {k : Nat} (hk : k < (st.recs t).nfields) :
    fieldView st u k = (fieldView st t k).slice start step (st.recs u).len := by
  rcases h.slots k hk with ⟨cv, hcv, hcu⟩ | ⟨ht, hu⟩
  · simp only [fieldView, hcv, hcu, Option.getD_some]
  · simp only [fieldView, ht, hu, Option.getD_none, FitsRec.rawField, View.slice, h.buf, h.offset, h.stride,
      ColDefs.col, h.columns]

theorem SliceOf.fieldView_len (h : SliceOf st t u start step) (k : Nat) :
    (fieldView st t k).len = (st.recs t).len := by
  unfold fieldView
  cases hc : st.conv (st.recs t).convert k with
  | none => rfl
  | some cv => exact (h.aligned k cv hc).1

theorem getCell_settled {r k : Nat} {i : Nat} (hs : Settled st r) (hk : k < (st.recs r).nfields)
    (hi : i < (fieldView st r k).len) :
    getCell r (.pos k) i st = .ok (st.mem (fieldView st r k).base ((fieldView st r k).pos i)) st := by
  have hidx : (getIndex (st.recs r).coldefs.names (.pos k) >>= pyIndex (st.recs r).nfields) = .ok k :=
    pyIndex_of_lt hk
  rw [getCell, bind_ok (by rw [field_settled hs, hidx])]
  simp only [View.getItem, npIndex]
  rw [if_pos ⟨by omega, by omega⟩]
  rfl

/-- Row `i` of a column of the slice and row `start + i * step` of the column of `t` are one cell:
both reads return its value and change nothing. -/
theorem SliceOf.getCell_eq (h : SliceOf st t u start step) {k : Nat} (hk : k < (st.recs t).nfields)
    {i : Nat} (hi : i < (st.recs u).len) :
    ∃ x, getCell u (.pos k) i st = .ok x st ∧ getCell t (.pos k) (start + i * step) st = .ok x st := by
  obtain ⟨h0, hn⟩ := h.rows i hi
  have hu := getCell_settled h.settled_slice (by rw [h.nfields]; exact hk)
    (show i < (fieldView st u k).len by rw [h.fieldView_eq hk, View.slice_len]; exact hi)
  have ht := getCell_settled h.settled hk
    (show (start + i * step).toNat < (fieldView st t k).len by rw [h.fieldView_len]; omega)
  refine ⟨_, hu, ?_⟩
  rw [show start + i * step = ((start + i * step).toNat : Int) by omega, ht, h.fieldView_eq hk,
    View.slice_base, View.slice_pos, show ((start + i * step).toNat : Int) = start + i * step by omega]

end SliceOf

/-! ## `__getitem__` with a slice -/

/-- The loop of `__getitem__` over the columns of `t`, after `c` turns, filling the new list `l`
of the slice: the tables are those of `R`, the turns done have settled their column of `t` and
given the slice the same slice of `t`'s slot, and the slots of `l` still to come are empty. -/
structure Touched (R : Nat → FitsRec) (t l : Nat) (start step : Int) (len c : Nat) (st : Store) : Prop where
  recs : st.recs = R
  aligned : CacheAligned st t
  done : ∀ k < c,
    (∃ cv, st.conv (R t).convert k = some cv ∧ st.conv l k = some (cv.slice start step len)) ∨
    (st.conv (R t).convert k = none ∧ st.conv l k = none ∧ Uncached (R t).coldefs k)
  fresh : ∀ k, c ≤ k → st.conv l k = none

section Touched

variable {R : Nat → FitsRec} {t l : Nat} {s : Slice} {start step : Int} {len : Nat}

theorem index_slice_aligned {cv : View} (hidx : s.indices cv.len = .ok (start, step, len)) (st : Store) :
    cv.index (.slice s) st = .ok (cv.slice start step len) st := by
  simp only [View.index, hidx, liftExcept_ok_bind, pure_apply]

/-- One turn of the loop: `field(c)`, then the slice of `t`'s slot `c` into the new list. -/
theorem touched_turn {r : FitsRec} (hRt : R t = r) (hl : l ≠ r.convert)
    (hidx : s.indices r.len = .ok (start, step, len)) {c : Nat} (hc : c < r.nfields) {st st' : Store}
    (hJ : Touched R t l start step len c st)
    {a : Nat} (h : selectColumn t r (.slice s) l c st = .ok a st') :
    Touched R t l start step len (c + 1) st' := by
  subst hRt
  obtain ⟨_, s0, ha, h⟩ := bind_ok_inv h
  rw [(liftExcept_ok_inv ha).2] at h
  obtain ⟨v, s1, hf, hrest⟩ := bind_ok_inv h
  have hr : st.recs t = R t := by rw [hJ.recs]
  obtain ⟨hrecs1, hal1, hother, hsettled⟩ := field_pos_settles hJ.aligned (by rw [hr]; exact hc) hf
  rw [hr] at hother hsettled
  have hlt : ∀ k, k ≠ c → s1.conv (R t).convert k = st.conv (R t).convert k := fun k hk => hother _ k (.inr hk)
  have hll : ∀ k, s1.conv l k = st.conv l k := fun k => hother l k (.inl hl)
  rw [getConv_bind] at hrest
  cases hcv : s1.conv (R t).convert c with
  | none =>
    rw [hcv] at hrest
    simp only [pure_bind, pure_apply, EStateM.Result.ok.injEq] at hrest
    obtain ⟨-, rfl⟩ := hrest
    refine ⟨hrecs1.trans hJ.recs, hal1, fun k hk => ?_, fun k hk => by rw [hll]; exact hJ.fresh k (by omega)⟩
    by_cases hkc : k = c
    · subst hkc
      exact .inr ⟨hcv, by rw [hll]; exact hJ.fresh k le_rfl, hsettled hcv⟩
    · rw [hlt k hkc, hll]
      exact hJ.done k (by omega)
  | some cv =>
    rw [hcv] at hrest
    dsimp only at hrest
    have hlen : cv.len = (R t).len := by
      have := (hal1 c cv (by rw [hrecs1, hr]; exact hcv)).1
      rwa [hrecs1, hr] at this
    rw [bind_ok (index_slice_aligned (hlen ▸ hidx) s1), bind_ok (setConv_apply _ _ _ _), pure_apply,
      EStateM.Result.ok.injEq] at hrest
    obtain ⟨-, rfl⟩ := hrest
    have hl' : ∀ k, k ≠ c → (setAt s1.conv l (setAt (s1.conv l) c (some (cv.slice start step len)))) l k =
        st.conv l k := fun k hk => by rw [setAt_same, setAt_ne _ _ hk, hll]
    refine ⟨hrecs1.trans hJ.recs, fun k cv' hk => ?_, fun k hk => ?_, fun k hk => ?_⟩ <;> dsimp only at *
    · rw [setAt_ne _ _ (show (s1.recs t).convert ≠ l by rw [hrecs1, hr]; exact hl.symm)] at hk
      exact hal1 k cv' hk
    · rw [setAt_ne _ _ hl.symm]
      by_cases hkc : k = c
      · subst hkc
        exact .inl ⟨cv, hcv, by rw [setAt_same, setAt_same]⟩
      · rw [hlt k hkc, hl' k hkc]
        exact hJ.done k (by omega)
    · rw [hl' k (by omega)]
      exact hJ.fresh k (by omega)

/-- The attributes `__getitem__` gives `t[start::step]` before its `_arrays` and `_shape` are set:
`len` rows, the list `l`, and the descriptor set `cd`, `ColDefs(t._coldefs)`. -/
def sliceRec (r : FitsRec) (start step : Int) (len l cd : Nat) : FitsRec :=
  { r with
    offset := r.offset + start * r.stride, stride := r.stride * step, len := len, convert := l,
    coldefs := { r.coldefs with tbtype := "BinTableHDU" }, cdId := cd, heapoffset := none, file := none }

/-- The store `__getitem__` runs its loop on: the new table `out` and its new empty list `l`. -/
theorem touched_start {st : Store} {out cd : Nat} (ht : t ≠ out) (hal : CacheAligned st t)
    (hfresh : (st.recs t).convert ≠ l) (next : Nat) :
    Touched (setAt st.recs out (sliceRec (st.recs t) start step len l cd)) t l start step len 0
      { st with
        next := next
        conv := setAt st.conv l fun _ => none
        recs := setAt st.recs out (sliceRec (st.recs t) start step len l cd) } := by
  refine ⟨rfl, fun k cv hk => ?_, fun k hk => absurd hk (Nat.not_lt_zero k), fun k _ => by simp⟩
  simp only [setAt_ne _ _ ht, setAt_ne _ _ hfresh] at hk ⊢
  exact hal k cv hk

end Touched

/-- `t[s]` for a slice: when it returns, it has built a new table `u`, a slice of `t` over the
rows the slice's indices select, with `t` settled. -/
theorem select_slice {st st1 : Store} {t u : Nat} {s : Slice} (hal : CacheAligned st t)
    (hraw : RawInSlice (st.recs t).coldefs) (hnext : t < st.next) (hconv : (st.recs t).convert < st.next)
    (h : FitsRec.select t (.slice s) st = .ok u st1) :
    ∃ start step, s.indices (st.recs t).len = .ok (start, step, (st1.recs u).len) ∧
      st1.recs t = st.recs t ∧ t ≠ u ∧ SliceOf st1 t u start step := by
  simp only [FitsRec.select, getRec_bind] at h
  cases hidx : s.indices (st.recs t).len with
  | error e => simp [hidx] at h
  | ok x =>
    obtain ⟨start, step, len⟩ := x
    simp only [hidx, liftExcept_ok_bind, pure_bind, bind_assoc] at h
    rw [bind_ok (alloc_apply st), bind_ok (alloc_apply _), bind_ok (show newList _ = _ from rfl), setRec_bind] at h
    obtain ⟨_, s2, hloop, hend⟩ := bind_ok_inv h
    dsimp only at hloop
    have hl : (st.recs t).convert ≠ st.next + 1 + 1 := by omega
    have hJ := mapM_range_ok (fun c hc _ _ _ hJ hturn => touched_turn (setAt_ne _ _ (Nat.ne_of_lt hnext))
      hl.symm hidx hc hJ hturn) (touched_start (Nat.ne_of_lt hnext) hal hl _) hloop
    split at hend
    · simp only [throw_bind, throw_apply, reduceCtorEq] at hend
    simp only [getRec_bind, setRec_bind, pure_apply, EStateM.Result.ok.injEq] at hend
    obtain ⟨rfl, rfl⟩ := hend
    have hRt : setAt st.recs st.next (sliceRec (st.recs t) start step len (st.next + 1 + 1) (st.next + 1)) t =
        st.recs t := setAt_ne _ _ (Nat.ne_of_lt hnext)
    have hu2 : s2.recs st.next = sliceRec (st.recs t) start step len (st.next + 1 + 1) (st.next + 1) := by
      rw [hJ.recs, setAt_same]
    have ht2 : s2.recs t = st.recs t := by rw [hJ.recs, hRt]
    have ht : ∀ x, setAt s2.recs st.next x t = st.recs t := fun x => by
      rw [setAt_ne _ _ (Nat.ne_of_lt hnext), ht2]
    refine ⟨start, step, by simp only [setAt_same, hu2]; rfl, ht _, Nat.ne_of_lt hnext, ?_⟩
    have hdone := hJ.done
    rw [hRt] at hdone
    refine ⟨?_, ?_, ?_, ?_, fun i hi => ?_, fun k hk => ?_, fun k hk hnone => ?_, fun k hk hnone => ?_,
      fun k cv hk => ?_⟩
    all_goals simp only [setAt_same, ht, hu2, sliceRec, FitsRec.nfields] at *
    · exact ⟨_, _, rfl⟩
    · exact indices_lt hidx i hi
    · rcases hdone k hk with ⟨cv, h1, h2⟩ | ⟨h1, h2, -⟩
      · exact .inl ⟨cv, h1, h2⟩
      · exact .inr ⟨h1, h2⟩
    · rcases hdone k hk with ⟨cv, h1, -⟩ | ⟨-, -, h3⟩
      · rw [h1] at hnone
        cases hnone
      · exact h3
    · rcases hdone k hk with ⟨cv, -, h2⟩ | ⟨-, -, h3⟩
      · rw [h2] at hnone
        cases hnone
      · exact (uncached_arrays _ _).mpr (hraw k hk h3)
    · have := hJ.aligned k cv (by rwa [ht2])
      rwa [ht2] at this

theorem getItem_slice_ok {st : Store} {t u : Nat} {s : Slice}
    (h : returned (FitsRec.getItem t (.slice s)) st = some (.table u)) :
    FitsRec.select t (.slice s) st = .ok u (final (FitsRec.getItem t (.slice s)) st) := by
  simp only [FitsRec.getItem, returned, final, Functor.map, EStateM.map] at h ⊢
  cases hs : FitsRec.select t (.slice s) st <;> simp only [hs, Option.some.injEq, Got.table.injEq, reduceCtorEq] at h ⊢
  rw [h]

/-! ## Runs of cell writes -/

/-- After `u = t[s]`, row `i` of every column of `u` and row `start + i * step` of the column of
`t` read the same value, and reading them changes nothing, after any run of cell writes through
`t` and `u`, by `field` or by record views. `t` may have any of its columns materialized
beforehand; its cached arrays have one element per row. -/
theorem slice_reads_parent_cells (st : Store) (t u : Nat) (s : Slice) (hal : CacheAligned st t)
    (hraw : RawInSlice (st.recs t).coldefs) (hnext : t < st.next) (hconv : (st.recs t).convert < st.next)
    (hget : returned (FitsRec.getItem t (.slice s)) st = some (.table u)) :
    ∃ start step len, s.indices (st.recs t).len = .ok (start, step, len) ∧
      ∀ ops : List Op, (∀ op ∈ ops, op.IsCellWriteOf t ∨ op.IsCellWriteOf u) →
        ∀ k < (st.recs t).nfields, ∀ i < len, ∃ x,
          getCell u (.pos k) i (runOps ops (final (FitsRec.getItem t (.slice s)) st)) =
            .ok x (runOps ops (final (FitsRec.getItem t (.slice s)) st)) ∧
          getCell t (.pos k) (start + i * step) (runOps ops (final (FitsRec.getItem t (.slice s)) st)) =
            .ok x (runOps ops (final (FitsRec.getItem t (.slice s)) st)) := by
  obtain ⟨start, step, hidx, ht, -, hS⟩ := select_slice hal hraw hnext hconv (getItem_slice_ok hget)
  refine ⟨start, step, _, hidx, fun ops hops k hk i hi => ?_⟩
  have hrun := runOps_cellWrites ops _ hops hS.settled hS.settled_slice
  exact (hS.of_sameTables hrun).getCell_eq (by rw [hrun.2, ht]; exact hk) (by rw [hrun.2]; exact hi)

/-- A binary table of three rows with a logical column, which `field` caches, and an integer
column, which it returns raw. -/
def flagsAndCounts : Store :=
  Store.ofTable "BinTableHDU" [⟨"f", "L", .plain "i1", none, none, ""⟩, ⟨"n", "J", .plain "i4", none, none, ""⟩] []
    [[.num (.int 84), .num (.int 1)], [.num (.int 70), .num (.int 2)], [.num (.int 84), .num (.int 3)]] []

/-- The reversed slice `t[::-1]` of it reads row `i` as row `2 - i` of `t`. -/
theorem reversed_slice_reads_rows :
    CacheAligned flagsAndCounts 0 ∧ RawInSlice (flagsAndCounts.recs 0).coldefs ∧ 0 < flagsAndCounts.next ∧ (flagsAndCounts.recs 0).convert < flagsAndCounts.next ∧
    returned (FitsRec.getItem 0 (.slice ⟨none, none, some (-1)⟩)) flagsAndCounts = some (.table 1) ∧
    ∃ start step len, Slice.indices ⟨none, none, some (-1)⟩ (flagsAndCounts.recs 0).len = .ok (start, step, len) ∧
      ∀ ops : List Op, (∀ op ∈ ops, op.IsCellWriteOf 0 ∨ op.IsCellWriteOf 1) →
        ∀ k < (flagsAndCounts.recs 0).nfields, ∀ i < len, ∃ x,
          getCell 1 (.pos k) i (runOps ops (final (FitsRec.getItem 0 (.slice ⟨none, none, some (-1)⟩)) flagsAndCounts)) =
            .ok x (runOps ops (final (FitsRec.getItem 0 (.slice ⟨none, none, some (-1)⟩)) flagsAndCounts)) ∧
          getCell 0 (.pos k) (start + i * step)
              (runOps ops (final (FitsRec.getItem 0 (.slice ⟨none, none, some (-1)⟩)) flagsAndCounts)) =
            .ok x (runOps ops (final (FitsRec.getItem 0 (.slice ⟨none, none, some (-1)⟩)) flagsAndCounts)) :=
  have hal : CacheAligned flagsAndCounts 0 := fun _ _ h => Option.noConfusion h
  have hraw : RawInSlice (flagsAndCounts.recs 0).coldefs := rawInSlice_of_binary rfl
  ⟨hal, hraw, by decide, by decide, by decide,
    slice_reads_parent_cells flagsAndCounts 0 1 _ hal hraw (by decide) (by decide) (by decide)⟩

/-- A binary table of two rows, as opened: a `PI` column scaled by `2` whose rows are empty on
disk, and a logical column holding `T` in both rows. -/
def emptyHeapAndFlags : Store :=
  Store.ofTable "BinTableHDU" [⟨"p", "PI(1)", .p "i2", some (.fin 1 1), none, ""⟩,
    ⟨"f", "L", .plain "i1", none, none, ""⟩] []
    [[.nums [.int 0, .int 0], .num (.int 84)], [.nums [.int 0, .int 0], .num (.int 84)]] []

/-- The table with both columns read, `[3]` assigned to row 1 of the `P` column and `False` to
row 1 of the logical column. -/
def heapAndFlags : Store :=
  runOps [.setCell 0 (.pos 0) 1 (.nums [.int 3]), .setCell 0 (.pos 1) 1 (.flag false)]
    (final (FitsRec.field 0 (.pos 1)) (final (FitsRec.field 0 (.pos 0)) emptyHeapAndFlags))

/-- The store after `u = t[1:2]`. -/
def heapAndFlagsSliced : Store := final (FitsRec.getItem 0 (.slice ⟨some 1, some 2, none⟩)) heapAndFlags

/-- With `u = t[1:2]`, which is table `3`, `t._scale_back()` raises at the `P` column, whose row 0
is empty and so cannot be cast into a descriptor, before it reaches the logical column.
`u._scale_back()` returns, and writes `F`, its row 0, into row 1 of `t`'s logical field. So
running it first leaves `F` there, where `t._scale_back()` alone leaves `T`. -/
theorem slice_scale_back_first_changes_parent :
    returned (FitsRec.getItem 0 (.slice ⟨some 1, some 2, none⟩)) heapAndFlags = some (.table 3) ∧
    raised (FitsRec.scaleBack 0) heapAndFlagsSliced =
      some (.typeError "only length-1 arrays can be converted to Python scalars") ∧
    (runOps [.scaleBack 3, .scaleBack 0] heapAndFlagsSliced).mem (.field 0 1) 1 = .num (.int 70) ∧
    (runOps [.scaleBack 0] heapAndFlagsSliced).mem (.field 0 1) 1 = .num (.int 84) := by
  decide

end PyFits.SliceView
