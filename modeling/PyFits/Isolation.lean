import PyFits.Table

/-!
# Tables derived from a table

`t[a]` for an index array gives the new table a fresh `_convert` list. Every other array numpy
derives from a `FITS_rec` goes through `__array_finalize__`, which hands it the parent's
`_convert` list and `_coldefs` object themselves and sets neither `_heapoffset` nor `_file`:
`t.copy()` and `t.take(idx)` copy the rows into a new buffer but share the cache. For every column that `t` has materialized, the copy's `field` returns `t`'s cached
array, so a cell written through the copy is read back through `t`; and a column of
`t.take(idx)` has as many rows as `t`, not as `len(idx)`.
-/

namespace PyFits.Isolation

theorem foldl_writeList_frame (f : Nat → View) (g : Nat → List Elem) :
    ∀ (xs : List Nat) (st : Store),
      (xs.foldl (fun st' i => st'.writeList (f i) (g i)) st).conv = st.conv ∧
      (xs.foldl (fun st' i => st'.writeList (f i) (g i)) st).recs = st.recs ∧
      (xs.foldl (fun st' i => st'.writeList (f i) (g i)) st).next = st.next
  | [], _ => ⟨rfl, rfl, rfl⟩
  | i :: xs, st => by
    obtain ⟨h1, h2, h3⟩ := foldl_writeList_frame f g xs (st.writeList (f i) (g i))
    exact ⟨h1.trans (Store.writeList_conv ..), h2.trans (Store.writeList_recs ..),
      h3.trans (Store.writeList_next ..)⟩

/-- Copying rows allocates a buffer and writes only the record memory. -/
theorem copyRows_ok (r : FitsRec) (sel : List Nat) (st : Store) :
    ∃ st', copyRows r sel st = .ok st.next st' ∧ st'.conv = st.conv ∧ st'.recs = st.recs ∧
      st'.next = st.next + 1 := by
  obtain ⟨h1, h2, h3⟩ := foldl_writeList_frame (fun f => ⟨.field st.next f, 0, 1, sel.length, (r.rawField f).dtype⟩)
    (fun f => sel.map fun (j : Nat) => st.mem (.field r.buf f) ((r.rawField f).pos j))
    (List.range r.nfields) { st with next := st.next + 1 }
  exact ⟨_, rfl, h1, h2, h3⟩

/-- `t.copy()` returns a new table over a new buffer, with `t`'s `_convert` list and `ColDefs`
object and no `_heapoffset` or `_file`, and touches no cache slot. -/
theorem copy_ok (self : Nat) (st : Store) :
    ∃ st', FitsRec.copy self st = .ok (st.next + 1) st' ∧ st'.conv = st.conv ∧
      st'.recs = setAt st.recs (st.next + 1)
        { st.recs self with buf := st.next, offset := 0, stride := 1, heapoffset := none, file := none } := by
  obtain ⟨st1, h, hconv, hrecs, hnext⟩ := copyRows_ok (st.recs self) (List.range (st.recs self).len) st
  refine ⟨{ st1 with next := st1.next + 1, recs := (setAt st1.recs st1.next
    { st.recs self with buf := st.next, offset := 0, stride := 1, heapoffset := none, file := none }) },
    ?_, hconv, ?_⟩
  · simp only [FitsRec.copy, getRec_bind, bind_ok h]
    rw [← hnext]
    rfl
  · simp only [hrecs, hnext]

/-- For every column that `t` has materialized, the copy's `field` and `t`'s `field` return
one and the same array. -/
theorem copy_shares_cache (self indx : Nat) (st : Store) (v : View)
    (hc : st.conv (st.recs self).convert indx = some v) (hi : indx < (st.recs self).nfields)
    (hself : self ≠ st.next + 1) :
    ∃ st', FitsRec.copy self st = .ok (st.next + 1) st' ∧
      FitsRec.field (st.next + 1) (.pos indx) st' = .ok v st' ∧
      FitsRec.field self (.pos indx) st' = .ok v st' := by
  obtain ⟨st', h, hconv, hrecs⟩ := copy_ok self st
  have hk : getIndex (st.recs self).coldefs.names (.pos indx) >>= pyIndex (st.recs self).nfields =
      .ok indx := pyIndex_of_lt hi
  have hk' : getIndex (st'.recs (st.next + 1)).coldefs.names (.pos indx) >>=
      pyIndex (st'.recs (st.next + 1)).nfields = .ok indx := by simpa [hrecs] using hk
  have hc' : st'.conv (st'.recs (st.next + 1)).convert indx = some v := by simpa [hrecs, hconv] using hc
  have hks : getIndex (st'.recs self).coldefs.names (.pos indx) >>= pyIndex (st'.recs self).nfields =
      .ok indx := by simpa [hrecs, hself] using hk
  have hcs : st'.conv (st'.recs self).convert indx = some v := by simpa [hrecs, hconv, hself] using hc
  exact ⟨st', h, FitsRec.field_cached st' hk' hc', FitsRec.field_cached st' hks hcs⟩

/-- A table of two rows with one logical column, `T` and `F`. -/
def flagTable : Store :=
  Store.ofTable "BinTableHDU" [⟨"f", "L", .plain "i1", none, none, ""⟩] []
    [[.num (.int 84)], [.num (.int 70)]] []

/-- Once `t` has read its column, the copy's `field` returns `t`'s cached array. -/
example :
    ∃ st', FitsRec.copy 0 (final (FitsRec.field 0 (.pos 0)) flagTable) = .ok 3 st' ∧
      FitsRec.field 3 (.pos 0) st' = .ok ⟨.arr 1, 0, 1, 2, .bool⟩ st' ∧
      FitsRec.field 0 (.pos 0) st' = .ok ⟨.arr 1, 0, 1, 2, .bool⟩ st' :=
  copy_shares_cache 0 0 _ _ (by decide) (by decide) (by decide)

/-- Writing `False` into row 0 of the copy's column changes row 0 of `t.field(0)` from `True`
to `False`; and a column of `t.take([1])` has two rows. -/
theorem copy_write_reaches_parent :
    returned (do
      let before ← (← FitsRec.field 0 (.pos 0)).getItem 0
      let u ← FitsRec.copy 0
      (← FitsRec.field u (.pos 0)).setItem 0 (.flag false)
      let after ← (← FitsRec.field 0 (.pos 0)).getItem 0
      pure (before, after)) flagTable = some (.flag true, .flag false) ∧
    returned (do
      let _ ← FitsRec.field 0 (.pos 0)
      let u ← FitsRec.take 0 [1]
      pure (← FitsRec.field u (.pos 0)).len) flagTable = some 2 := by
  decide

end PyFits.Isolation
