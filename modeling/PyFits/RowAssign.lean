import PyFits.FieldCache
import PyFits.RecordWindow

/-!
# Assigning rows

`t[row] = x` writes one row. For a tuple or a list of `c` values it runs
`t.field(k)[row] = x[k]` for every column `k` in turn; for a record view it runs
`t.field(name)[row] = x[name]` for every column name of `t` in turn, and `x[name]` raises
`KeyError` at the first name outside the view's window, after the columns before it were
written. So neither branch is atomic. A value of another type, or a sequence of the wrong
length, raises before anything is written. `t[start:end] = xs` clamps the range to the table
and to the value, and assigns its rows one by one.

Every write goes through `field`, which may first fill an empty cache slot with a new array. So
a run of such writes changes memory only in the cells of the rows it assigns, as the columns'
views address them, and in the arrays it allocates; it fills empty slots with those arrays and
changes no table. File positions, which reading the heap moves, are not tracked.
-/

namespace PyFits.RowAssign

open FieldCache

/-- Base `b` is an array allocated between `st0` and `st`. -/
def Fresh (st0 st : Store) (b : Base) : Prop := ∃ id, st0.next ≤ id ∧ id < st.next ∧ b = .arr id

/-- `w` is an array `t.field(k)` can return in `st`: the raw field of column `k`, or the array
in its cache slot. -/
def ColumnView (st : Store) (t k : Nat) (w : View) : Prop :=
  w = (st.recs t).rawField k ∨ st.conv (st.recs t).convert k = some w

/-- Position `p` of base `b` is the cell `w[row]` of a column view `w` of table `t`. -/
def RowCell (st : Store) (t : Nat) (row : Int) (b : Base) (p : Int) : Prop :=
  ∃ k w j, ColumnView st t k w ∧ npIndex w.len row = .ok j ∧ b = w.base ∧ p = w.pos j

/-- What writes to the rows `rows` of table `t` may change from `st0`: memory in the cells of
those rows and in new arrays, and empty cache slots, which they fill with new arrays. -/
structure RowFrame (t : Nat) (rows : Int → Prop) (st0 st : Store) : Prop where
  recs : st.recs = st0.recs
  tnull : st.asciiTNull = st0.asciiTNull
  next : st0.next ≤ st.next
  keep : ∀ l k w, st0.conv l k = some w → st.conv l k = some w
  fill : ∀ l k w, st.conv l k = some w → st0.conv l k = some w ∨ Fresh st0 st w.base
  mem : ∀ b p, st.mem b p ≠ st0.mem b p → Fresh st0 st b ∨ ∃ row, rows row ∧ RowCell st t row b p

section Frame

variable {t : Nat} {rows : Int → Prop} {st0 st1 st : Store}

theorem Fresh.widen {st0' st' : Store} {b : Base} (h : Fresh st0 st b) (h0 : st0'.next ≤ st0.next)
    (h1 : st.next ≤ st'.next) : Fresh st0' st' b := by
  obtain ⟨id, hlo, hhi, rfl⟩ := h
  exact ⟨id, by omega, by omega, rfl⟩

theorem RowCell.mono {row : Int} {b : Base} {p : Int} (h : RowCell st1 t row b p) (hr : st.recs = st1.recs)
    (hk : ∀ l k w, st1.conv l k = some w → st.conv l k = some w) : RowCell st t row b p := by
  obtain ⟨k, w, j, hw, hj, rfl, rfl⟩ := h
  refine ⟨k, w, j, ?_, hj, rfl, rfl⟩
  rcases hw with rfl | hc
  · exact .inl (by rw [hr])
  · exact .inr (by rw [hr]; exact hk _ _ _ hc)

theorem RowFrame.refl (st : Store) : RowFrame t rows st st :=
  ⟨rfl, rfl, le_refl _, fun _ _ _ h => h, fun _ _ _ h => .inl h, fun _ _ h => absurd rfl h⟩

/-- Moving file positions is within every frame. -/
theorem RowFrame.files (st : Store) (fs : Nat → FileObj) : RowFrame t rows st { st with files := fs } :=
  ⟨rfl, rfl, le_refl _, fun _ _ _ h => h, fun _ _ _ h => .inl h, fun _ _ h => absurd rfl h⟩

theorem RowFrame.trans (h1 : RowFrame t rows st0 st1) (h2 : RowFrame t rows st1 st) : RowFrame t rows st0 st where
  recs := h2.recs.trans h1.recs
  tnull := h2.tnull.trans h1.tnull
  next := le_trans h1.next h2.next
  keep l k w h := h2.keep l k w (h1.keep l k w h)
  fill l k w h := by
    rcases h2.fill l k w h with h' | hf
    · exact (h1.fill l k w h').imp_right fun hf => hf.widen (le_refl _) h2.next
    · exact .inr (hf.widen h1.next (le_refl _))
  mem b p hne := by
    by_cases h21 : st.mem b p = st1.mem b p
    · rcases h1.mem b p (h21 ▸ hne) with hf | ⟨row, hr, hc⟩
      · exact .inl (hf.widen (le_refl _) h2.next)
      · exact .inr ⟨row, hr, hc.mono h2.recs h2.keep⟩
    · exact (h2.mem b p h21).imp_left fun hf => hf.widen h1.next (le_refl _)

theorem RowFrame.mono {rows' : Int → Prop} (h : RowFrame t rows st0 st) (hr : ∀ row, rows row → rows' row) :
    RowFrame t rows' st0 st :=
  { h with mem := fun b p hne => (h.mem b p hne).imp_right fun ⟨row, h1, h2⟩ => ⟨row, hr row h1, h2⟩ }

end Frame

/-! ## Tables whose cells are apart -/

/-- The cells of table `t` are apart in `st`: two cells of its column views at one position are
one cell, of one column and one row, and its cached arrays were allocated before `next`. -/
structure CellsApart (st : Store) (t : Nat) : Prop where
  old : ∀ k w, st.conv (st.recs t).convert k = some w → ∃ id < st.next, w.base = .arr id
  apart : ∀ k k' w w' (i j : Nat), ColumnView st t k w → ColumnView st t k' w' → w.base = w'.base →
    w.pos i = w'.pos j → k = k' ∧ i = j

section Apart

variable {t : Nat} {rows : Int → Prop} {st0 st : Store} {k : Nat} {w : View}

theorem CellsApart.not_fresh (ha : CellsApart st0 t) (hw : ColumnView st0 t k w) {st' : Store} (hf : Fresh st0 st' w.base) :
    False := by
  obtain ⟨id, hlo, -, hb⟩ := hf
  rcases hw with rfl | hc
  · cases hb
  · obtain ⟨id', hid', hb'⟩ := ha.old k w hc
    rw [hb'] at hb
    cases hb
    omega

/-- A column view after a run of row writes was there before, or is an array the run allocated. -/
theorem ColumnView.back (h : RowFrame t rows st0 st) (hw : ColumnView st t k w) :
    ColumnView st0 t k w ∨ Fresh st0 st w.base := by
  rcases hw with rfl | hc
  · exact .inl (.inl (by rw [h.recs]))
  · rw [h.recs] at hc
    exact (h.fill _ _ _ hc).imp_left .inr

theorem npIndex_of_nonneg {n : Nat} {i : Int} {j : Nat} (h : npIndex n i = .ok j) (hi : 0 ≤ i) : (j : Int) = i := by
  simp only [npIndex] at h
  split_ifs at h <;> simp only [Except.ok.injEq, reduceCtorEq] at h <;> omega

/-- In a table whose cells are apart, row writes leave every cell of every other row of every
column view that was there before. -/
theorem RowFrame.other_rows (h : RowFrame t rows st0 st) (ha : CellsApart st0 t) (hrows : ∀ row, rows row → 0 ≤ row)
    (hw : ColumnView st0 t k w) (i : Nat) (hi : ¬ rows i) : st.mem w.base (w.pos i) = st0.mem w.base (w.pos i) := by
  by_contra hne
  rcases h.mem _ _ hne with hf | ⟨row, hrow, k', w', j, hw', hj, hb, hp⟩
  · exact ha.not_fresh hw hf
  · rcases hw'.back h with hw0 | hf
    · obtain ⟨-, rfl⟩ := ha.apart k k' w w' i j hw hw0 hb hp
      exact hi (by rw [npIndex_of_nonneg hj (hrows row hrow)]; exact hrow)
    · exact ha.not_fresh hw (hb ▸ hf)

end Apart

/-! ## `field` -/

section Field

variable {t : Nat} {rows : Int → Prop}

/-- Filling the empty slot `i` of list `l` keeps every filled slot and fills no other. -/
theorem conv_fill {c : Nat → Nat → Option View} {l i : Nat} (hc : c l i = none) (v : View) (l' k : Nat)
    (w : View) : (c l' k = some w → setAt c l (setAt (c l) i (some v)) l' k = some w) ∧
      (setAt c l (setAt (c l) i (some v)) l' k = some w → c l' k = some w ∨ w = v) := by
  by_cases hl : l' = l
  · subst hl
    by_cases hk : k = i
    · subst hk
      simp only [setAt_same, hc, reduceCtorEq, false_implies, Option.some.injEq, true_and, false_or]
      exact Eq.symm
    · simp only [setAt_same, setAt_ne _ _ hk]
      exact ⟨id, .inl⟩
  · simp only [setAt_ne _ _ hl]
    exact ⟨id, .inl⟩

/-- `field` changes no table and writes no row, whether it returns or raises: it may fill the
empty slot of its column with a new array. -/
theorem rowFrame_field (s : Nat) (key : Key) (st : Store) : RowFrame t rows st (final (FitsRec.field s key) st) := by
  rw [FitsRec.field, final_bind_ok (getRec_apply st s)]
  cases hk : (getIndex (st.recs s).coldefs.names key >>= pyIndex (st.recs s).nfields) with
  | error e => exact RowFrame.refl st
  | ok indx =>
    rw [liftExcept_ok_bind, final_bind_ok (getConv_apply st _ indx)]
    cases hc : st.conv (st.recs s).convert indx with
    | some v => exact RowFrame.refl st
    | none =>
      dsimp only
      have hfiles := convertField_files (st.recs s) indx st
      match hcf : convertField (st.recs s) indx st with
      | .error e st1 =>
        rw [final_error hcf] at hfiles
        rw [show final _ st = st1 by simp only [final, bind_error hcf], hfiles]
        exact RowFrame.files st _
      | .ok none st1 =>
        rw [final_ok hcf] at hfiles
        rw [final_bind_ok hcf, hfiles]
        exact RowFrame.files st _
      | .ok (some cells) st1 =>
        rw [final_ok hcf] at hfiles
        rw [final_bind_ok hcf, hfiles]
        simp only [newArray, alloc, setConv, final, bind, EStateM.bind, pure, EStateM.pure]
        refine ⟨by simp, by simp, by simp, fun l k w h => ?_, fun l k w h => ?_, fun b p hne => .inl ?_⟩
        · simpa using (conv_fill hc _ l k w).1 h
        · simp only [Store.writeList_conv] at h
          rcases (conv_fill hc _ l k w).2 h with h' | rfl
          · exact .inl h'
          · exact .inr ⟨st.next, le_refl _, by simp, rfl⟩
        · by_cases hb : b = .arr st.next
          · exact ⟨st.next, le_refl _, by simp, hb⟩
          · exact absurd (Store.writeFrom_mem_of_base_ne _ ⟨.arr st.next, 0, 1, cells.length, _⟩ 0 cells hb p) hne

/-- Every step with no more effect than `field` keeps a row frame. -/
theorem stays_rowFrame_field (st0 : Store) (s : Nat) (key : Key) :
    Stays (RowFrame t rows st0) (FitsRec.field s key) :=
  fun st h => h.trans (rowFrame_field s key st)

/-- `field` of table `t` returns one of its column views. -/
theorem field_columnView {key : Key} {st st1 : Store} {w : View} (h : FitsRec.field t key st = .ok w st1) :
    ∃ k, ColumnView st1 t k w := by
  obtain ⟨k, -, hrecs, hcase⟩ := field_ok h
  refine ⟨k, ?_⟩
  rcases hcase with ⟨hs, rfl⟩ | ⟨-, -, rfl, rfl⟩ | ⟨-, -, -, hconv⟩
  · exact .inr hs
  · exact .inl rfl
  · exact .inr (by rw [hrecs, hconv, setAt_same, setAt_same])

/-- `w[row] = x` for a column view `w` of table `t` writes the cell of row `row`. -/
theorem RowFrame.setItem {st0 st : Store} {k : Nat} {w : View} {row : Int} (h : RowFrame t rows st0 st)
    (hw : ColumnView st t k w) (hr : rows row) (x : Elem) : RowFrame t rows st0 (final (w.setItem row x) st) := by
  simp only [final, View.setItem]
  cases hj : npIndex w.len row with
  | error e => exact h
  | ok j =>
    cases hc : w.dtype.cast x with
    | error e => exact h
    | ok y =>
      refine { h with mem := fun b p hne => ?_ }
      by_cases hbp : b = w.base ∧ p = w.pos j
      · exact .inr ⟨row, hr, k, w, j, hw, hj, hbp.1, hbp.2⟩
      · simp only [Store.write_mem, if_neg hbp] at hne
        exact (h.mem b p hne).imp_right fun ⟨row', h1, h2⟩ => ⟨row', h1, h2.mono rfl fun _ _ _ h => h⟩

/-- `t.field(key)[row] = x` writes the cell of row `row` in one column of `t`. -/
theorem stays_field_setItem (st0 : Store) (key : Key) {row : Int} (hr : rows row) (x : Elem) :
    Stays (RowFrame t rows st0) (FitsRec.field t key >>= fun w => w.setItem row x) := by
  intro st h
  have h1 := stays_rowFrame_field st0 t key st h
  match hf : FitsRec.field t key st with
  | .ok w st1 =>
    obtain ⟨k, hw⟩ := field_columnView hf
    rw [final_bind_ok hf]
    exact (final_ok hf ▸ h1).setItem hw hr x
  | .error e st1 => rwa [final_error hf, ← final_error (bind_error hf)] at h1

end Field

/-! ## Assigning a row -/

section Row

variable {t : Nat} {rows : Int → Prop} (st0 : Store)

/-- Reading a cell through a record view writes no row. -/
theorem stays_recordGetItem (v : FitsRecord) (key : Key) : Stays (RowFrame t rows st0) (v.getItem key) := by
  unfold FitsRecord.getItem
  exact stays_bind (stays_getRec _) fun _ _ _ _ _ => stays_bind (stays_liftExcept _) fun _ _ _ _ _ =>
    stays_bind (stays_rowFrame_field st0 _ _) fun _ w _ _ _ => stays_of_final fun st => by
      simp only [final, View.getItem]
      cases npIndex w.len v.row <;> rfl

/-- `t.field(name)[row] = v[name]`, one turn of assigning a record view. -/
theorem stays_recordCell (v : FitsRecord) (name : String) {row : Int} (hr : rows row) :
    Stays (RowFrame t rows st0)
      (v.getItem (.name name) >>= fun x => FitsRec.field t (.name name) >>= fun w => w.setItem row x) :=
  stays_bind (stays_recordGetItem st0 v _) fun _ x _ _ _ => stays_field_setItem st0 _ hr x

/-- `t[row] = value` writes only cells of row `row`, whether it returns or raises. -/
theorem stays_setItem {row : Int} (hr : rows row) (value : RowValue) :
    Stays (RowFrame t rows st0) (FitsRec.setItem t row value) := by
  cases value with
  | record v =>
    exact stays_bind (stays_getRec _) fun _ _ _ _ _ => stays_forM fun _ _ => stays_recordCell st0 v _ hr
  | seq xs =>
    refine stays_bind (stays_getRec _) fun _ _ _ _ _ => ?_
    split
    · exact stays_forM fun _ _ => stays_field_setItem st0 _ hr _
    · exact stays_throw _
  | other => exact stays_throw _

end Row

/-! ## Reading an assigned row back -/

section ReadBack

variable {t : Nat} {st s s1 : Store} {k : Nat} {w : View}

/-- `w` is what `field(k)` returns without changing anything: the filled slot of column `k`, or the
raw field of a column `field` never caches. -/
def Kept (st : Store) (t k : Nat) (w : View) : Prop :=
  st.conv (st.recs t).convert k = some w ∨
    (st.conv (st.recs t).convert k = none ∧ Uncached (st.recs t).coldefs k ∧ w = (st.recs t).rawField k)

theorem field_of_kept (h : Kept st t k w) (hk : k < (st.recs t).nfields) : FitsRec.field t (.pos k) st = .ok w st := by
  have hidx : (getIndex (st.recs t).coldefs.names (.pos k) >>= pyIndex (st.recs t).nfields) = .ok k :=
    pyIndex_of_lt hk
  rcases h with hc | ⟨hc, hu, rfl⟩
  · exact FitsRec.field_cached st hidx hc
  · simp only [FitsRec.field, getRec_bind, hidx, liftExcept_ok_bind, getConv_bind, hc]
    rw [bind_ok (convertField_uncached hu st)]
    rfl

theorem getCell_of_kept {r : Int} {j : Nat} (h : Kept st t k w) (hk : k < (st.recs t).nfields)
    (hj : npIndex w.len r = .ok j) : getCell t (.pos k) r st = .ok (st.mem w.base (w.pos j)) st := by
  rw [getCell, bind_ok (field_of_kept h hk)]
  simp only [View.getItem, hj]

/-- A view that was there before a run, or that the run allocated, is not an array a later
step allocates. -/
theorem CellsApart.not_fresh_later (ha : CellsApart st t) (h : ColumnView st t k w ∨ Fresh st s w.base)
    (hnext : st.next ≤ s.next) (hf : Fresh s s1 w.base) : False := by
  rcases h with hw | ⟨id, -, hid, hb⟩
  · exact ha.not_fresh hw (hf.widen hnext (le_refl _))
  · obtain ⟨id', hid', -, hb'⟩ := hf
    rw [hb] at hb'
    cases hb'
    omega

/-- The cells of two columns, each there before the run or allocated by it, are apart. -/
theorem CellsApart.cells_ne {c : Nat} {w' : View} {j j' : Nat} (ha : CellsApart st t)
    (h1 : ColumnView st t k w ∨ Fresh st s w.base) (h2 : ColumnView st t c w' ∨ Fresh s s1 w'.base)
    (hkc : k ≠ c) (hnext : st.next ≤ s.next) : ¬ (w.base = w'.base ∧ w.pos j = w'.pos j') := by
  rintro ⟨hb, hp⟩
  rcases h2 with hw' | hf
  · rcases h1 with hw | hf
    · exact hkc (ha.apart k c w w' j j' hw hw' hb hp).1
    · exact ha.not_fresh hw' (show Fresh st s w'.base from hb ▸ hf)
  · exact ha.not_fresh_later h1 hnext (hb ▸ hf)

/-- After the first `c` columns of `t[r] = xs`: the run is within the frame of row `r`, the slots
of the columns to come are those of `st`, and each column done keeps the view it was written
through, which holds `xs[k]` cast to the view's dtype in row `r`. -/
structure SeqDone (st : Store) (t : Nat) (r : Int) (xs : List Elem) (c : Nat) (s : Store) : Prop where
  frame : RowFrame t (· = r) st s
  later : ∀ k, c ≤ k → s.conv (st.recs t).convert k = st.conv (st.recs t).convert k
  done : ∀ k < c, ∃ w j y, Kept s t k w ∧ (ColumnView st t k w ∨ Fresh st s w.base) ∧ npIndex w.len r = .ok j ∧
    w.dtype.cast (xs.getD k default) = .ok y ∧ s.mem w.base (w.pos j) = y

/-- One column of `t[r] = xs`: `t.field(c)[r] = xs[c]`, cast to the column's dtype. -/
theorem seqDone_step {r : Int} {xs : List Elem} {c : Nat} {s' : Store} (ha : CellsApart st t)
    (hc : c < (st.recs t).nfields) (hJ : SeqDone st t r xs c s)
    (h : (FitsRec.field t (.pos c) >>= fun w => w.setItem r (xs.getD c default)) s = .ok ⟨⟩ s') :
    SeqDone st t r xs (c + 1) s' := by
  obtain ⟨w, s1, hf, hw⟩ := bind_ok_inv h
  have hrecs : s.recs = st.recs := hJ.frame.recs
  have hF0 : RowFrame t (fun _ => False) s s1 := final_ok hf ▸ rowFrame_field t (.pos c) s
  have hF1 : RowFrame t (· = r) s s1 := hF0.mono fun _ h => h.elim
  obtain ⟨c', hk, -, hcase⟩ := field_ok hf
  rw [hrecs, show (getIndex (st.recs t).coldefs.names (.pos c) >>= pyIndex (st.recs t).nfields) = .ok c from
    pyIndex_of_lt hc, Except.ok.injEq] at hk
  subst hk
  rw [hrecs] at hcase
  simp only [View.setItem] at hw
  cases hj : npIndex w.len r with
  | error e => rw [hj] at hw; cases hw
  | ok j =>
    cases hy : w.dtype.cast (xs.getD c default) with
    | error e => rw [hj, hy] at hw; cases hw
    | ok y =>
      rw [hj, hy, EStateM.Result.ok.injEq] at hw
      obtain ⟨-, rfl⟩ := hw
      have hother : ∀ k, k ≠ c → s1.conv (st.recs t).convert k = s.conv (st.recs t).convert k := by
        intro k hk
        rcases hcase with ⟨-, rfl⟩ | ⟨-, -, -, rfl⟩ | ⟨-, -, -, hconv⟩
        · rfl
        · rfl
        · rw [hconv, setAt_same, setAt_ne _ _ hk]
      have hkept : Kept s1 t c w ∧ (ColumnView st t c w ∨ Fresh s s1 w.base) := by
        unfold Kept
        rw [hF1.recs, hrecs]
        rcases hcase with ⟨hs, rfl⟩ | ⟨hn, hu, rfl, rfl⟩ | ⟨hn, -, -, hconv⟩
        · exact ⟨.inl hs, .inl (.inr ((hJ.later c (le_refl c)).symm.trans hs))⟩
        · exact ⟨.inr ⟨hn, hu, rfl⟩, .inl (.inl rfl)⟩
        · have hs1 : s1.conv (st.recs t).convert c = some w := by rw [hconv, setAt_same, setAt_same]
          refine ⟨.inl hs1, .inr ?_⟩
          rcases hF1.fill _ _ _ hs1 with hs | hfr
          · rw [hn] at hs; cases hs
          · exact hfr
      have hnext : st.next ≤ s.next := hJ.frame.next
      obtain ⟨hkc, hoc⟩ := hkept
      obtain ⟨kc, hcv⟩ := field_columnView hf
      refine ⟨?_, fun k hk => ?_, fun k hk => ?_⟩
      · have h2 := (hJ.frame.trans hF1).setItem hcv rfl (xs.getD c default)
        simpa only [final, View.setItem, hj, hy] using h2
      · rw [Store.write_conv, hother k (by omega), hJ.later k (by omega)]
      · rcases Nat.lt_succ_iff_lt_or_eq.mp hk with hk | rfl
        · obtain ⟨wk, jk, yk, hkk, horig, hjk, hyk, hmem⟩ := hJ.done k hk
          refine ⟨wk, jk, yk, ?_, horig.imp_right fun hf => hf.widen (le_refl _) hF1.next, hjk, hyk, ?_⟩
          · unfold Kept at hkk ⊢
            simpa only [Store.write_conv, Store.write_recs, hF1.recs, hrecs, hother k (by omega)] using hkk
          · rw [Store.write_mem, if_neg (ha.cells_ne horig hoc (by omega) hnext), ← hmem]
            by_contra hne
            rcases hF0.mem _ _ hne with hf | ⟨_, hfalse, -⟩
            · exact ha.not_fresh_later horig hnext hf
            · exact hfalse
        · refine ⟨w, j, y, ?_, hoc.imp_right fun hf => hf.widen hnext (le_refl _), hj, hy, by simp⟩
          unfold Kept at hkc ⊢
          simpa only [Store.write_conv, Store.write_recs] using hkc

/-- When `t[r] = xs` returns, on a table whose cells are apart, every column `t.field(k)` reads
back in row `r` the value `xs[k]` cast to its dtype. -/
theorem seq_reads_back {r : Int} {xs : List Elem} {st' : Store} (ha : CellsApart st t)
    (h : FitsRec.setItem t r (.seq xs) st = .ok ⟨⟩ st') :
    ∀ k < (st.recs t).nfields, ∃ w y, FitsRec.field t (.pos k) st' = .ok w st' ∧
      w.dtype.cast (xs.getD k default) = .ok y ∧ getCell t (.pos k) r st' = .ok y st' := by
  simp only [FitsRec.setItem, getRec_bind] at h
  split at h
  · have hJ := forM_range_ok (fun c hc s s' hJ hs => seqDone_step ha hc hJ hs)
      (⟨RowFrame.refl st, fun _ _ => rfl, fun k hk => absurd hk (Nat.not_lt_zero k)⟩ : SeqDone st t r xs 0 st) h
    intro k hk
    obtain ⟨w, j, y, hkw, -, hj, hy, hmem⟩ := hJ.done k hk
    have hk' : k < (st'.recs t).nfields := by rw [hJ.frame.recs]; exact hk
    exact ⟨w, y, field_of_kept hkw hk', hy, hmem ▸ getCell_of_kept hkw hk' hj⟩
  · cases h

end ReadBack

/-! ## Assigning a record view -/

theorem index_of_getItem {v : FitsRecord} {key : Key} {st st' : Store} {x : Elem} (h : v.getItem key st = .ok x st') :
    ∃ i, v.index (st.recs v.array).coldefs.names key = .ok i := by
  simp only [FitsRecord.getItem, getRec_bind] at h
  cases hi : v.index (st.recs v.array).coldefs.names key with
  | error e => rw [hi, liftExcept_error_bind] at h; cases h
  | ok i => exact ⟨i, rfl⟩

/-- `t[r] = v` for a record view `v` returns only when every column name of `t` is a column of
`v`'s table whose index lies in `v`'s window. -/
theorem record_names_in_window {t : Nat} {r : Int} {v : FitsRecord} {st st' : Store}
    (h : FitsRec.setItem t r (.record v) st = .ok ⟨⟩ st') :
    ∀ k < (st.recs t).nfields, ∃ j : Nat,
      (st.recs v.array).coldefs.names.indexOf? ((st.recs t).coldefs.col k).name = some j ∧
        v.start ≤ j ∧ (j : Int) < v.end := by
  simp only [FitsRec.setItem, getRec_bind] at h
  have hJ := forM_range_ok (fun c hc s s' (hJ : RowFrame t (· = r) st s ∧ ∀ k < c, ∃ j : Nat,
      (st.recs v.array).coldefs.names.indexOf? ((st.recs t).coldefs.col k).name = some j ∧
        v.start ≤ j ∧ (j : Int) < v.end) hs => by
    obtain ⟨x, s1, hg, -⟩ := bind_ok_inv hs
    obtain ⟨i, hi⟩ := index_of_getItem hg
    rw [hJ.1.recs] at hi
    obtain ⟨j, hj, -, h1, h2⟩ := (RecordWindow.index_name_ok v _ _ i).mp hi
    have hF := @stays_recordCell t (· = r) st v ((st.recs t).coldefs.col c).name r rfl s hJ.1
    rw [final_ok hs] at hF
    refine ⟨hF, fun k hk => ?_⟩
    rcases Nat.lt_succ_iff_lt_or_eq.mp hk with hk | rfl
    · exact hJ.2 k hk
    · exact ⟨j, hj, h1, h2⟩) ⟨RowFrame.refl st, fun k hk => absurd hk (Nat.not_lt_zero k)⟩ h
  exact hJ.2

/-! ## `t[r] = x` -/

/-- A table of two rows and two integer columns `a` and `b`, holding `1, 2` and `3, 4`. -/
def twoByTwo : Store :=
  Store.ofTable "BinTableHDU" [⟨"a", "J", .plain "i4", none, none, ""⟩, ⟨"b", "J", .plain "i4", none, none, ""⟩] []
    [[.num (.int 1), .num (.int 2)], [.num (.int 3), .num (.int 4)]] []

theorem forM_map {α β : Type} (f : β → M PUnit) (g : α → β) : ∀ l : List α, (l.map g).forM f = l.forM (f ∘ g)
  | [] => rfl
  | a :: l => by simp only [List.map_cons, List.forM_cons', forM_map f g l, Function.comp]

/-- `t[start:end] = value` assigns `value[k]` to row `s0 + k`, where `s0 = max(0, start)`, for every
`k` with `s0 + k < e = min(n, max(0, end), s0 + len(value))`, in that order: it indexes neither the
table nor the value out of range, and it writes no other row, whether it returns or raises; in a
table whose cells are apart, every cell of every other row keeps its value. -/
theorem setSlice_rows (t : Nat) (start «end» : Int) (value : List RowValue) (st : Store) :
    let s0 := max 0 start
    let e := min (min ((st.recs t).len : Int) (max 0 «end»)) (s0 + value.length)
    FitsRec.setSlice t start «end» value st =
        ((List.range (e - s0).toNat).forM fun (k : Nat) => FitsRec.setItem t (s0 + k) (value.getD k .other)) st ∧
      (e - s0).toNat ≤ value.length ∧
      (∀ k < (e - s0).toNat, 0 ≤ s0 + k ∧ s0 + k < (st.recs t).len) ∧
      RowFrame t (fun idx => s0 ≤ idx ∧ idx < e) st (final (FitsRec.setSlice t start «end» value) st) ∧
      (CellsApart st t → ∀ k w, ColumnView st t k w → ∀ i : Nat, ¬ (s0 ≤ i ∧ i < e) →
        (final (FitsRec.setSlice t start «end» value) st).mem w.base (w.pos i) = st.mem w.base (w.pos i)) := by
  dsimp only
  have he : min (max 0 (min ((st.recs t).len : Int) «end»)) (max 0 start + value.length) =
      min (min ((st.recs t).len : Int) (max 0 «end»)) (max 0 start + value.length) := by omega
  have hframe : RowFrame t (fun idx => max 0 start ≤ idx ∧ idx < min (min ((st.recs t).len : Int) (max 0 «end»))
      (max 0 start + value.length)) st (final (FitsRec.setSlice t start «end» value) st) := by
    refine stays_bind (stays_getRec t) (fun st' r _ hst hr => stays_forM fun idx hidx => stays_setItem st ?_ _)
      st (RowFrame.refl st)
    obtain ⟨rfl, -⟩ := getRec_ok hr
    rw [hst.recs] at hidx
    simp only [he, List.mem_map, List.mem_range] at hidx
    obtain ⟨k, hk, rfl⟩ := hidx
    omega
  refine ⟨?_, by omega, fun k hk => by omega, hframe, fun ha k w hw i hi =>
    hframe.other_rows ha (fun row h => le_trans (le_max_left 0 start) h.1) hw i hi⟩
  simp only [FitsRec.setSlice, getRec_bind]
  rw [forM_map, he]
  exact congrFun (congrArg (List.forM _) (funext fun k => by
    simp only [Function.comp, add_sub_cancel_left, Int.toNat_ofNat])) st

end PyFits.RowAssign

