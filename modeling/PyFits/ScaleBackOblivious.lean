import PyFits.ScaleBackFrame
import PyFits.SliceView

/-!
# `_scale_back` does not read the rows it rewrites

Every branch of `_scale_back`'s loop that writes a raw field computes what it writes from the
cached array, the table's attributes and `ASCIITNULL`, never from the raw field, and it writes
every row of the field. So two stores that differ only in rows that `_scale_back` rewrites are
told apart by nothing it does: when it returns on one it returns on the other, and the two
stores it leaves have the same memory and the same table.

The proof runs a method on the two stores side by side. `Sim` says that a step which returns on
the first store returns the same value on the second and keeps the two in `Agree`, up to a set
of positions where their memory may differ; a write of the same values at the same positions
takes those positions out of the set.

A slice `u = t[s]` shares `t`'s record buffer, and `u._scale_back()` rewrites rows of `u` that
`t._scale_back()` rewrites too, with values computed from the same cached arrays. So after any run
of cell writes, when `t._scale_back()` returns it returns also after `u._scale_back()`, and leaves
the same memory and the same table `t`.
-/

namespace PyFits.ScaleBackOblivious

open ScaleBackFrame

/-- `D` with the positions `K` taken out. -/
def Minus (D K : Base → Int → Prop) : Base → Int → Prop := fun b p => D b p ∧ ¬ K b p

/-- The positions of the elements of view `v`. -/
def Rows (v : View) : Base → Int → Prop := fun b p => b = v.base ∧ ∃ j < v.len, p = v.pos (j : Int)

/-- Two stores that `_scale_back` of table `t` reads alike: the same cache lists, the same table
`t`, the same `ASCIITNULL`, and memory that differs only at the positions `D`. -/
structure Agree (t : Nat) (D : Base → Int → Prop) (X Y : Store) : Prop where
  conv : X.conv = Y.conv
  recs : X.recs t = Y.recs t
  tnull : X.asciiTNull = Y.asciiTNull
  mem : ∀ b p, X.mem b p ≠ Y.mem b p → D b p

section Agree

variable {t : Nat} {D D' : Base → Int → Prop} {X Y : Store}

theorem Agree.mono (h : Agree t D X Y) (hD : ∀ b p, D b p → D' b p) : Agree t D' X Y :=
  ⟨h.conv, h.recs, h.tnull, fun b p hne => hD b p (h.mem b p hne)⟩

theorem Agree.mem_eq (h : Agree t D X Y) {b : Base} {p : Int} (hn : ¬ D b p) : X.mem b p = Y.mem b p :=
  Classical.byContradiction fun hne => hn (h.mem b p hne)

theorem Agree.read_eq (h : Agree t D X Y) {v : View} (hv : ∀ j < v.len, ¬ D v.base (v.pos j)) :
    X.read v = Y.read v := by
  simp only [Store.read]
  exact List.map_congr_left fun j hj => h.mem_eq (hv j (List.mem_range.mp hj))

/-- Writing the same element at the same position keeps two stores in agreement, and they agree
at that position afterwards. -/
theorem Agree.write (h : Agree t D X Y) (b : Base) (p : Int) (x : Elem) :
    Agree t (Minus D fun b' p' => b' = b ∧ p' = p) (X.write b p x) (Y.write b p x) := by
  refine ⟨h.conv, h.recs, h.tnull, fun b' p' hne => ?_⟩
  simp only [Store.write_mem] at hne
  split at hne
  · exact absurd rfl hne
  · next hbp => exact ⟨h.mem b' p' hne, hbp⟩

theorem Agree.writeFrom (v : View) :
    ∀ (i : Nat) (xs : List Elem) {D : Base → Int → Prop} {X Y : Store}, Agree t D X Y →
      Agree t (Minus D fun b p => b = v.base ∧ ∃ k < xs.length, p = v.pos ((i + k : Nat) : Int))
        (X.writeFrom v i xs) (Y.writeFrom v i xs)
  | _, [], _, _, _, h => h.mono fun _ _ hd => ⟨hd, fun ⟨_, k, hk, _⟩ => absurd hk (Nat.not_lt_zero k)⟩
  | i, x :: xs, _, _, _, h => by
    refine (Agree.writeFrom v (i + 1) xs (h.write v.base (v.pos i) x)).mono fun b p ⟨⟨hd, h0⟩, hs⟩ => ⟨hd, ?_⟩
    rintro ⟨rfl, k, hk, rfl⟩
    cases k with
    | zero => exact h0 ⟨rfl, by simp⟩
    | succ k =>
      exact hs ⟨rfl, k, by simpa using hk, by rw [show i + 1 + k = i + (k + 1) by omega]⟩

end Agree

/-- Run side by side on a store `X` that the loop of `_scale_back` over table `t` can reach from
`st0`, and on a store `Y` that agrees with it up to `D`: when `m` returns on `X`, it returns the
same value on `Y`, the store it leaves from `X` is again one the loop can reach, and the two
stores it leaves agree up to `D'`. -/
def Sim (t : Nat) (st0 : Store) (D D' : Base → Int → Prop) {α : Type} (m : M α) : Prop :=
  ∀ X Y a X', ColumnsFrame t (fun _ _ => True) st0 X → Agree t D X Y → m X = .ok a X' →
    ColumnsFrame t (fun _ _ => True) st0 X' ∧ ∃ Y', m Y = .ok a Y' ∧ Agree t D' X' Y'

section Sim

variable {t : Nat} {st0 : Store} {D D' D'' : Base → Int → Prop} {α β : Type}

theorem sim_mono {m : M α} (h : Sim t st0 D D' m) (hD : ∀ b p, D' b p → D'' b p) : Sim t st0 D D'' m :=
  fun X Y a X' hX hA hm => by
    obtain ⟨hX', Y', hY, hA'⟩ := h X Y a X' hX hA hm
    exact ⟨hX', Y', hY, hA'.mono hD⟩

theorem sim_pure (a : α) : Sim t st0 D D (pure a) := by
  intro X Y b X' hX hA h
  simp only [pure_apply, EStateM.Result.ok.injEq] at h
  obtain ⟨rfl, rfl⟩ := h
  exact ⟨hX, Y, rfl, hA⟩

theorem sim_throw (e : PyError) : Sim t st0 D D' (throw e : M α) := by
  intro X Y a X' _ _ h
  cases h

theorem sim_liftExcept (x : Except PyError α) : Sim t st0 D D (liftExcept x) := by
  intro X Y a X' hX hA h
  cases x with
  | error e => cases h
  | ok b =>
    simp only [liftExcept_ok, EStateM.Result.ok.injEq] at h
    obtain ⟨rfl, rfl⟩ := h
    exact ⟨hX, Y, rfl, hA⟩

theorem sim_bind {m : M α} {k : α → M β} (hm : Sim t st0 D D' m) (hk : ∀ a, Sim t st0 D' D'' (k a)) :
    Sim t st0 D D'' (m >>= k) := by
  intro X Y b X'' hX hA h
  obtain ⟨a, X1, h1, h2⟩ := bind_ok_inv h
  obtain ⟨hX1, Y1, hY1, hA1⟩ := hm X Y a X1 hX hA h1
  obtain ⟨hX'', Y'', hY'', hA''⟩ := hk a X1 Y1 b X'' hX1 hA1 h2
  exact ⟨hX'', Y'', by rw [bind_ok hY1]; exact hY'', hA''⟩

/-- `sim_bind` with the set of positions in between given first, for proofs that run through a
method step by step. -/
theorem sim_bind_via (D' : Base → Int → Prop) {m : M α} {k : α → M β} (hm : Sim t st0 D D' m)
    (hk : ∀ a, Sim t st0 D' D'' (k a)) : Sim t st0 D D'' (m >>= k) :=
  sim_bind hm hk

/-- Both arms of a condition, for the automation that runs through a method: cheaper than
`split` on an `if` whose arms hold the rest of the method. -/
theorem sim_ite {c : Prop} [Decidable c] {a b : M α} (ha : Sim t st0 D D' a) (hb : Sim t st0 D D' b) :
    Sim t st0 D D' (if c then a else b) := by
  split
  exacts [ha, hb]

theorem sim_liftExcept_bind {x : Except PyError α} {k : α → M β} (hk : ∀ a, x = .ok a → Sim t st0 D D' (k a)) :
    Sim t st0 D D' (liftExcept x >>= k) := by
  cases x with
  | error e => rw [liftExcept_error_bind]; exact sim_throw e
  | ok a => rw [liftExcept_ok_bind]; exact hk a rfl

theorem sim_map {m : M α} (f : α → β) (hm : Sim t st0 D D' m) : Sim t st0 D D' (f <$> m) := by
  rw [← bind_pure_comp]
  exact sim_bind hm fun a => sim_mono (sim_pure (f a)) fun _ _ h => h

theorem sim_getRec_bind {k : FitsRec → M β}
    (hk : ∀ r, { r with heapsize := 0 } = { st0.recs t with heapsize := 0 } → Sim t st0 D D' (k r)) :
    Sim t st0 D D' (getRec t >>= k) := by
  intro X Y a X' hX hA h
  rw [getRec_bind] at h
  obtain ⟨hX', Y', hY', hA'⟩ := hk (X.recs t) hX.table X Y a X' hX hA h
  exact ⟨hX', Y', by rw [getRec_bind, ← hA.recs]; exact hY', hA'⟩

theorem sim_getRec : Sim t st0 D D (getRec t) := by
  intro X Y a X' hX hA h
  simp only [getRec_apply, EStateM.Result.ok.injEq] at h
  obtain ⟨rfl, rfl⟩ := h
  exact ⟨hX, Y, by rw [getRec_apply, hA.recs], hA⟩

theorem sim_getConv_bind {l i : Nat} {k : Option View → M β} (hk : Sim t st0 D D' (k (st0.conv l i))) :
    Sim t st0 D D' (getConv l i >>= k) := by
  intro X Y a X' hX hA h
  rw [getConv_bind, hX.conv] at h
  obtain ⟨hX', Y', hY', hA'⟩ := hk X Y a X' hX hA h
  exact ⟨hX', Y', by rw [getConv_bind, ← hA.conv, hX.conv]; exact hY', hA'⟩

theorem sim_readView_bind {v : View} {k : List Elem → M β} (hv : ∀ j < v.len, ¬ D v.base (v.pos j))
    (hk : ∀ xs, xs.length = v.len → Sim t st0 D D' (k xs)) : Sim t st0 D D' (readView v >>= k) := by
  intro X Y a X' hX hA h
  rw [readView_bind] at h
  obtain ⟨hX', Y', hY', hA'⟩ := hk (X.read v) (by simp [Store.read]) X Y a X' hX hA h
  exact ⟨hX', Y', by rw [readView_bind, ← hA.read_eq hv]; exact hY', hA'⟩

/-- A read whose result is dropped, as the `D` branch of the ASCII write drops its copy. -/
theorem sim_readView_discard {v : View} {m : M β} (h : Sim t st0 D D' m) :
    Sim t st0 D D' (readView v >>= fun _ => m) :=
  h

theorem sim_setRec_heapsize {r : FitsRec} (hr : { r with heapsize := 0 } = { st0.recs t with heapsize := 0 })
    (n : Int) : Sim t st0 D D (setRec t { r with heapsize := n }) := by
  intro X Y a X' hX hA h
  simp only [setRec_apply, EStateM.Result.ok.injEq] at h
  obtain ⟨-, rfl⟩ := h
  exact ⟨hX.setRec hr, _, rfl, ⟨hA.conv, by simp, hA.tnull, hA.mem⟩⟩

/-- `v[:] = xs` writes the same elements into both stores, in every row of `v`. -/
theorem sim_setAll (v : View) (xs : List Elem) : Sim t st0 D (Minus D (Rows v)) (v.setAll xs) := by
  intro X Y a X' hX hA h
  unfold View.setAll at h ⊢
  cases hb : broadcast v.len xs with
  | error e => simp [hb] at h
  | ok ys =>
    rw [hb, liftExcept_ok_bind] at h
    rw [liftExcept_ok_bind]
    simp only [EStateM.Result.ok.injEq] at h
    obtain ⟨-, rfl⟩ := h
    refine ⟨hX.writeFrom 0 ys fun _ _ => trivial, _, rfl, (hA.writeFrom v 0 ys).mono fun b p ⟨hd, hw⟩ => ⟨hd, ?_⟩⟩
    rintro ⟨rfl, j, hj, rfl⟩
    exact hw ⟨rfl, j, by rw [broadcast_length hb]; exact hj, by simp⟩

/-- A later write of every row keeps the rows in agreement. -/
theorem sim_setAll_again (v : View) (xs : List Elem) :
    Sim t st0 (Minus D (Rows v)) (Minus D (Rows v)) (v.setAll xs) :=
  sim_mono (sim_setAll v xs) fun _ _ h => h.1

/-- Any write of the same elements keeps two stores in agreement. -/
theorem sim_setAll_keep (v : View) (xs : List Elem) : Sim t st0 D D (v.setAll xs) :=
  sim_mono (sim_setAll v xs) fun _ _ h => h.1

theorem sim_setItem_keep (v : View) (i : Int) (x : Elem) : Sim t st0 D D (v.setItem i x) := by
  intro X Y a X' hX hA h
  cases hn : npIndex v.len i with
  | error e => simp [View.setItem, hn] at h
  | ok j =>
    cases hc : v.dtype.cast x with
    | error e => simp [View.setItem, hn, hc] at h
    | ok y =>
      simp only [View.setItem, hn, hc, EStateM.Result.ok.injEq] at h
      obtain ⟨-, rfl⟩ := h
      exact ⟨hX.write trivial y, _, by simp only [View.setItem, hn, hc], (hA.write _ _ y).mono fun _ _ h => h.1⟩

/-- `v[i] = x` for a row `i` of `v` writes the same element into both stores, or raises on both. -/
theorem sim_setItem {v : View} {i : Nat} (hi : i < v.len) (x : Elem) :
    Sim t st0 D (Minus D fun b p => b = v.base ∧ p = v.pos i) (v.setItem i x) := by
  intro X Y a X' hX hA h
  have hn : npIndex v.len i = .ok i := by
    simp only [npIndex]
    rw [if_pos ⟨by omega, by omega⟩]
    simp
  cases hc : v.dtype.cast x with
  | error e => simp [View.setItem, hn, hc] at h
  | ok y =>
    simp only [View.setItem, hn, hc, EStateM.Result.ok.injEq] at h
    obtain ⟨-, rfl⟩ := h
    exact ⟨hX.write trivial y, _, by simp only [View.setItem, hn, hc], hA.write _ _ y⟩

theorem sim_throw_bind (e : PyError) (k : α → M β) : Sim t st0 D D' (throw e >>= k) := by
  rw [throw_bind]
  exact sim_throw e

end Sim

/-- Running side by side is a logic of the branches. -/
theorem rules_sim (t : Nat) (st0 : Store) : Rules t (fun D D' {_ : Type} m => Sim t st0 D D' m) where
  pure _ a := sim_pure a
  throw _ _ e := sim_throw e
  liftExcept _ x := sim_liftExcept x
  getRec _ := sim_getRec
  readDiscard := fun {_} {_} {_} _ {_} hm => sim_readView_discard hm
  bind hm hk := sim_bind hm hk

/-! ## The branches that write a raw field -/

section Branches

variable {t : Nat} {st0 : Store} {D : Base → Int → Prop} {v : View}

/-- The rows `i, i + 1, …` the loop of the ASCII branch writes from `i` on, one per value. -/
theorem sim_asciiWriteRows (render : Elem → Except PyError (List Char)) (span : Int) (width : Nat) :
    ∀ (i : Nat) (es : List Elem) {D : Base → Int → Prop}, i + es.length ≤ v.len →
      Sim t st0 D (Minus D fun b p => b = v.base ∧ ∃ j : Nat, i ≤ j ∧ j < i + es.length ∧ p = v.pos j)
        (asciiWriteRows v render span width i es)
  | i, [], _, _ => sim_mono (sim_pure ()) fun _ _ hd => ⟨hd, fun ⟨_, j, h1, h2, _⟩ => by simp at h2; omega⟩
  | i, e :: es, _, hlen => by
    unfold asciiWriteRows
    refine sim_bind (sim_liftExcept _) fun x => ?_
    dsimp only
    split
    · exact sim_throw_bind _ _
    · rw [pure_bind]
      refine sim_bind (sim_setItem (by simp at hlen; omega) _) fun _ => ?_
      refine sim_mono (sim_asciiWriteRows render span width (i + 1) es (by simp at hlen; omega))
        fun b p ⟨⟨hd, h0⟩, hs⟩ => ⟨hd, ?_⟩
      rintro ⟨rfl, j, h1, h2, rfl⟩
      by_cases hj : j = i
      · exact h0 ⟨rfl, by rw [hj]⟩
      · exact hs ⟨rfl, j, by omega, by simp at h2 ⊢; omega, rfl⟩

theorem sim_wrapxColumn (conv : List Elem) (nx : Nat) :
    Sim t st0 D (Minus D (Rows v)) (wrapxColumn conv nx v) :=
  sim_bind (sim_setAll _ _) fun _ => sim_bind (sim_liftExcept _) fun _ => sim_setAll_again _ _

theorem sim_binaryWrite (fmt : RecFormat) (dummy : List Elem) :
    Sim t st0 D (Minus D (Rows v)) (binaryWrite fmt v dummy) := by
  unfold binaryWrite
  dsimp only
  split
  · exact sim_throw_bind _ _
  · rw [pure_bind]
    exact sim_bind (sim_liftExcept _) fun _ => sim_setAll _ _

theorem sim_asciiWriteRows_all (render : Elem → Except PyError (List Char)) (span : Int) (width : Nat)
    {dummy : List Elem} (hlen : dummy.length = v.len) :
    Sim t st0 D (Minus D (Rows v)) (asciiWriteRows v render span width 0 dummy) :=
  sim_mono (sim_asciiWriteRows render span width 0 dummy (by omega)) fun _ _ ⟨hd, hr⟩ =>
    ⟨hd, fun ⟨hb, j, hj, hp⟩ => hr ⟨hb, j, Nat.zero_le j, by omega, hp⟩⟩

theorem sim_scaleBackP (conv : List Elem) (dt : String) :
    Sim t st0 D (Minus D (Rows v)) (scaleBackP t conv dt v) := by
  unfold scaleBackP
  refine sim_bind (sim_setAll _ _) fun _ => sim_bind (sim_liftExcept _) fun npts => ?_
  dsimp only
  split
  · exact sim_throw_bind _ _
  · rw [pure_bind]
    refine sim_bind (sim_setAll_again _ _) fun _ => sim_bind (sim_liftExcept _) fun size =>
      sim_getRec_bind fun r hr => ?_
    exact sim_bind (sim_setAll_again _ _) fun _ => sim_setRec_heapsize hr _

theorem sim_asciiWrite (c : Column) (starts loc : List Int) (widths : List (Option Nat)) (indx : Nat)
    {dummy : List Elem} (hlen : dummy.length = v.len) :
    Sim t st0 D (Minus D (Rows v)) (asciiWrite c starts loc widths indx v dummy) :=
  (rules_sim t st0).asciiBranch (fun _ _ _ => sim_asciiWriteRows_all _ _ _ hlen) c starts loc widths indx

theorem sim_scaleBackP_keep (conv : List Elem) (dt : String) : Sim t st0 D D (scaleBackP t conv dt v) :=
  sim_mono (sim_scaleBackP conv dt) fun _ _ h => h.1

end Branches

/-! ## One turn of the loop -/

/-- `_get_scale_factors` raises on column `indx`, which is not an `X` column: the turn of the
loop for it raises whenever the column's slot is filled. -/
def FailsFactors (cd : ColDefs) (indx : Nat) : Prop :=
  (∀ nx, (cd.col indx).recformat ≠ .x nx) ∧ ∃ e, getScaleFactors cd indx = .error e

/-- The rows the turn of column `indx` of table `t` rewrites when it returns: those of the
column's raw field, when its slot is filled and its branch writes (a turn whose scale factors
raise never returns, so its rows count too). -/
def Rewritten (st0 : Store) (t indx : Nat) : Base → Int → Prop := fun b p =>
  (st0.conv (st0.recs t).convert indx).isSome ∧
    (writesRaw (st0.recs t).coldefs indx = true ∨ FailsFactors (st0.recs t).coldefs indx) ∧
    Rows ((st0.recs t).rawField indx) b p

section Turn

variable {t : Nat} {st0 : Store} {D : Base → Int → Prop}

/-- A turn of the loop keeps two stores in agreement, when they agree on the column's cached
array. -/
theorem sim_scaleBackColumn_keep (loc : List Int) (widths : List (Option Nat)) (indx : Nat)
    (hcache : ∀ cv, st0.conv (st0.recs t).convert indx = some cv → ∀ j < cv.len, ¬ D cv.base (cv.pos j)) :
    Sim t st0 D D (scaleBackColumn t loc widths indx) := by
  unfold scaleBackColumn
  refine sim_getRec_bind fun r hr => sim_getConv_bind ?_
  rw [(fields_of_heapsize_zero hr).1]
  cases hc : st0.conv (st0.recs t).convert indx with
  | none => exact sim_pure ()
  | some cv =>
    refine sim_readView_bind (hcache cv hc) fun conv _ => ?_
    have hvals : ∀ sf, Sim t st0 D D (scaleBackValues t r loc widths indx conv sf) :=
      (rules_sim t st0).valuesBranch D (sim_setAll_keep _) (sim_setItem_keep _) loc widths conv
    dsimp only
    split
    · exact (rules_sim t st0).wrapx D (sim_setAll_keep _) conv _
    · refine sim_liftExcept_bind fun sf _ => ?_
      split
      · exact sim_bind (sim_scaleBackP_keep _ _) fun _ => hvals sf
      · exact sim_bind (sim_pure ()) fun _ => hvals sf

/-- A turn whose slot is filled and whose scale factors raise never returns. -/
theorem sim_scaleBackColumn_fails (loc : List Int) (widths : List (Option Nat)) {indx : Nat}
    {D' : Base → Int → Prop} (hsome : (st0.conv (st0.recs t).convert indx).isSome)
    (hf : FailsFactors (st0.recs t).coldefs indx) : Sim t st0 D D' (scaleBackColumn t loc widths indx) := by
  obtain ⟨e, he⟩ := hf.2
  obtain ⟨cv, hc⟩ := Option.isSome_iff_exists.mp hsome
  unfold scaleBackColumn
  refine sim_getRec_bind fun r hr => sim_getConv_bind ?_
  obtain ⟨hconv, hcd, -⟩ := fields_of_heapsize_zero hr
  rw [hconv, hc, hcd]
  intro X Y a X' _ _ h
  dsimp only at h
  rw [readView_bind] at h
  split at h
  · next nx hx => exact absurd hx (hf.1 nx)
  · rw [he, liftExcept_error_bind] at h
    cases h

/-- A turn that writes rewrites every row of its column with the same values on both stores, so
the two stores agree on those rows afterwards. -/
theorem sim_scaleBackColumn (loc : List Int) (widths : List (Option Nat)) (indx : Nat)
    (hcache : ∀ cv, st0.conv (st0.recs t).convert indx = some cv →
      cv.len = (st0.recs t).len ∧ ∀ j < cv.len, ¬ D cv.base (cv.pos j)) :
    Sim t st0 D (Minus D (Rewritten st0 t indx)) (scaleBackColumn t loc widths indx) := by
  by_cases hw : (st0.conv (st0.recs t).convert indx).isSome ∧
      (writesRaw (st0.recs t).coldefs indx = true ∨ FailsFactors (st0.recs t).coldefs indx)
  swap
  · exact sim_mono (sim_scaleBackColumn_keep loc widths indx fun cv hc => (hcache cv hc).2)
      fun b p hd => ⟨hd, fun ⟨h1, h2, _⟩ => hw ⟨h1, h2⟩⟩
  obtain ⟨hsome, hwr | hfail⟩ := hw
  swap
  · exact sim_scaleBackColumn_fails loc widths hsome hfail
  obtain ⟨cv, hc⟩ := Option.isSome_iff_exists.mp hsome
  obtain ⟨hlen, hcv⟩ := hcache cv hc
  suffices key : Sim t st0 D (Minus D (Rows ((st0.recs t).rawField indx))) (scaleBackColumn t loc widths indx) from
    sim_mono key fun b p ⟨hd, hr⟩ => ⟨hd, fun ⟨_, _, hrows⟩ => hr hrows⟩
  unfold scaleBackColumn
  refine sim_getRec_bind fun r hr => sim_getConv_bind ?_
  obtain ⟨hconv, hcd, hraw⟩ := fields_of_heapsize_zero hr
  rw [hconv, hc]
  dsimp only
  refine sim_readView_bind hcv fun conv hconvlen => ?_
  rw [hcd, hraw]
  unfold writesRaw at hwr
  cases hrf : ((st0.recs t).coldefs.col indx).recformat with
  | x nx => exact sim_wrapxColumn conv nx
  | p dt =>
    refine sim_liftExcept_bind fun sf _ => sim_bind (sim_scaleBackP conv dt) fun _ => ?_
    exact (rules_sim t st0).valuesBranch _ (sim_setAll_keep _) (sim_setItem_keep _) loc widths conv sf
  | plain spec =>
    rw [hrf] at hwr
    refine sim_liftExcept_bind fun sf hsf => ?_
    rw [hsf] at hwr
    dsimp only at hwr ⊢
    rw [pure_bind]
    simp only [scaleBackValues, hcd, hraw, hrf]
    split
    · next hns =>
      rw [if_pos hns, Bool.or_eq_true] at hwr
      split
      · rw [bind_map_left]
        refine sim_liftExcept_bind fun dummy hd => sim_getRec_bind fun r' hr' => ?_
        rw [(fields_of_heapsize_zero hr').2.1]
        have hdl : dummy.length = ((st0.recs t).rawField indx).len := by
          rw [except_mapM_length hd, hconvlen, hlen]; rfl
        split
        · exact sim_asciiWrite _ _ _ _ _ hdl
        · exact sim_binaryWrite _ _
      · next hsc =>
        have hasc := hwr.resolve_left hsc
        rw [if_pos hasc, pure_bind]
        refine sim_getRec_bind fun r' hr' => ?_
        rw [(fields_of_heapsize_zero hr').2.1, if_pos hasc]
        exact sim_asciiWrite _ _ _ _ _ (by rw [hconvlen, hlen]; rfl)
    · next hns =>
      rw [if_neg hns] at hwr
      rw [if_pos hwr]
      exact sim_bind (sim_liftExcept _) fun _ => sim_setAll _ _

/-- The turns of the first `n` columns rewrite the rows of every column among them whose turn
writes. -/
theorem sim_scaleBackColumns (loc : List Int) (widths : List (Option Nat)) :
    ∀ n : Nat, (∀ k < n, ∀ cv, st0.conv (st0.recs t).convert k = some cv →
      cv.len = (st0.recs t).len ∧ ∀ j < cv.len, ¬ D cv.base (cv.pos j)) →
      Sim t st0 D (Minus D fun b p => ∃ k < n, Rewritten st0 t k b p)
        ((List.range n).forM (scaleBackColumn t loc widths))
  | 0, _ => by
    rw [List.range_zero, List.forM_nil']
    exact sim_mono (sim_pure _) fun _ _ hd => ⟨hd, fun ⟨k, hk, _⟩ => absurd hk (Nat.not_lt_zero k)⟩
  | n + 1, hc => by
    rw [List.range_succ, List.forM_append, List.forM_cons', List.forM_nil', bind_pure_unit]
    refine sim_bind (sim_scaleBackColumns loc widths n fun k hk => hc k (by omega)) fun _ => ?_
    have hn := hc n (Nat.lt_succ_self n)
    refine sim_mono (sim_scaleBackColumn loc widths n fun cv h =>
      ⟨(hn cv h).1, fun j hj hd => (hn cv h).2 j hj hd.1⟩) ?_
    rintro b p ⟨⟨hd, h1⟩, h2⟩
    refine ⟨hd, fun ⟨k, hk, hr⟩ => ?_⟩
    rcases Nat.lt_succ_iff_lt_or_eq.mp hk with hk | rfl
    · exact h1 ⟨k, hk, hr⟩
    · exact h2 hr

end Turn

/-! ## The whole call -/

section Call

variable {t : Nat} {D : Base → Int → Prop}

theorem Agree.setRec {X Y : Store} (h : Agree t D X Y) (r : FitsRec) :
    Agree t D { X with recs := setAt X.recs t r } { Y with recs := setAt Y.recs t r } :=
  ⟨h.conv, by simp only [setAt_same], h.tnull, h.mem⟩

theorem Agree.setColDefs {X Y : Store} (h : Agree t D X Y) (id : Nat) (cd : ColDefs) :
    Agree t D (X.setColDefs id cd) (Y.setColDefs id cd) :=
  ⟨h.conv, by simp only [Store.setColDefs, h.recs], h.tnull, h.mem⟩

/-- The layout step of an ASCII table reads only the table, so it does the same on two stores
that agree. -/
theorem agree_asciiLayout {X Y X' : Store} {a : List Int × List (Option Nat)} (hA : Agree t D X Y)
    (h : asciiLayout t X = .ok a X') : ∃ Y', asciiLayout t Y = .ok a Y' ∧ Agree t D X' Y' := by
  simp only [asciiLayout, getRec_bind] at h ⊢
  rw [← hA.recs]
  cases hw : (X.recs t).coldefs.columns.mapM (fun c => convertAsciiFormat c.format) <;>
    cases hl : (X.recs t).coldefs.starts.getLast? <;>
    simp only [hw, hl, liftExcept_ok_bind, liftExcept_error_bind, pure_bind, throw_bind, throw_apply,
      reduceCtorEq] at h ⊢
  split at h
  · simp at h
  · next hn =>
    simp only [hn, if_false, setColDefs_bind, pure_apply, EStateM.Result.ok.injEq] at h ⊢
    obtain ⟨rfl, rfl⟩ := h
    exact ⟨_, ⟨rfl, rfl⟩, hA.setColDefs _ _⟩

/-- The rows the loop rewrites are the same before and after the layout step and the reset of
`_heapsize`, which change only `starts` and `_heapsize`. -/
theorem rewritten_congr {A B : Store} {s : List Int} {n : Int} (hc : A.conv = B.conv)
    (hr : A.recs t = { B.recs t with coldefs := { (B.recs t).coldefs with starts := s }, heapsize := n })
    (k : Nat) : Rewritten A t k = Rewritten B t k := by
  unfold Rewritten FailsFactors
  rw [hc, hr]
  rfl

/-- The loop of `_scale_back`, after the layout step, on two stores that differ only in rows it
rewrites. -/
theorem scaleBack_loop_agree {st X1 Y1 X' : Store} (s loc : List Int) (widths : List (Option Nat))
    (hc : X1.conv = st.conv) (hr : X1.recs t = { st.recs t with coldefs := { (st.recs t).coldefs with starts := s } })
    (hD : ∀ b p, D b p → ∃ k < (st.recs t).nfields, Rewritten st t k b p)
    (hcache : ∀ k cv, st.conv (st.recs t).convert k = some cv →
      cv.len = (st.recs t).len ∧ ∀ j < cv.len, ¬ D cv.base (cv.pos j))
    (hA : Agree t D X1 Y1)
    (h : (getRec t >>= fun r => setRec t { r with heapsize := 0 } >>= fun _ =>
      (List.range r.nfields).forM (scaleBackColumn t loc widths)) X1 = .ok ⟨⟩ X') :
    ∃ Y', (getRec t >>= fun r => setRec t { r with heapsize := 0 } >>= fun _ =>
      (List.range r.nfields).forM (scaleBackColumn t loc widths)) Y1 = .ok ⟨⟩ Y' ∧
      Y'.mem = X'.mem ∧ Y'.recs t = X'.recs t := by
  simp only [getRec_bind, setRec_bind] at h ⊢
  rw [← hA.recs]
  have hr0 : (setAt X1.recs t { X1.recs t with heapsize := 0 }) t =
      { st.recs t with coldefs := { (st.recs t).coldefs with starts := s }, heapsize := 0 } := by
    rw [setAt_same, hr]
  have hrw : ∀ k, Rewritten { X1 with recs := setAt X1.recs t { X1.recs t with heapsize := 0 } } t k =
      Rewritten st t k := rewritten_congr hc hr0
  obtain ⟨-, Y', hY', hA'⟩ := sim_scaleBackColumns loc widths (X1.recs t).nfields (fun k _ cv h => by
      dsimp only at h ⊢
      rw [hr0, hc] at h
      rw [hr0]
      exact hcache k cv h) _ _ ⟨⟩ X' (ColumnsFrame.refl _ _ _) (hA.setRec _) h
  refine ⟨Y', hY', funext fun b => funext fun p => by_contra fun hne => ?_, hA'.recs.symm⟩
  obtain ⟨hd, hnot⟩ := hA'.mem b p (Ne.symm hne)
  obtain ⟨k, hk, hrk⟩ := hD b p hd
  exact hnot ⟨k, by rw [hr]; exact hk, by rw [hrw]; exact hrk⟩

/-- When `_scale_back` of table `t` returns on `X`, it returns on a store `Y` that differs from
`X` only in rows it rewrites, and the two stores it leaves have the same memory and the same
table `t`. The cached arrays it reads must lie outside those rows. -/
theorem scaleBack_agree {X Y X' : Store}
    (hD : ∀ b p, D b p → ∃ k < (X.recs t).nfields, Rewritten X t k b p)
    (hcache : ∀ k cv, X.conv (X.recs t).convert k = some cv →
      cv.len = (X.recs t).len ∧ ∀ j < cv.len, ¬ D cv.base (cv.pos j))
    (hA : Agree t D X Y) (h : FitsRec.scaleBack t X = .ok ⟨⟩ X') :
    ∃ Y', FitsRec.scaleBack t Y = .ok ⟨⟩ Y' ∧ Y'.mem = X'.mem ∧ Y'.recs t = X'.recs t := by
  rw [FitsRec.scaleBack, getRec_bind] at h ⊢
  rw [← hA.recs]
  split at h
  · next hasc =>
    rw [if_pos hasc]
    obtain ⟨⟨loc, widths⟩, X1, h1, h2⟩ := bind_ok_inv h
    obtain ⟨Y1, hY1, hA1⟩ := agree_asciiLayout hA h1
    obtain ⟨rfl, rfl, -⟩ := AsciiLayout.asciiLayout_ok h1
    rw [bind_ok hY1]
    exact scaleBack_loop_agree _ _ widths (appendStarts_conv _ _ _) (appendStarts_self _ _ _) hD hcache hA1 h2
  · next hasc =>
    rw [if_neg hasc, pure_bind] at *
    exact scaleBack_loop_agree _ [] [] rfl rfl hD hcache hA h

/-- The rows of table `t` that the loop of `_scale_back` may rewrite, on the store it starts on. -/
def Rewrites (st : Store) (t : Nat) : Base → Int → Prop := fun b p =>
  ∃ k < (st.recs t).nfields, Rewritten st t k b p

/-- `_scale_back` of table `t`, whether it returns or raises, writes only rows its loop may
rewrite, after a layout step that appends nothing in a binary table. -/
theorem scaleBack_rewrites (t : Nat) (st : Store) :
    ∃ e, ((st.recs t).coldefs.isAscii = false → e = []) ∧
      ColumnsFrame t (Rewrites st t) (appendStarts st t e) (final (FitsRec.scaleBack t) st) := by
  obtain ⟨e, -, he, hlay⟩ := layout_appends t st
  have hrw : ∀ k, Rewritten (appendStarts st t e) t k = Rewritten st t k :=
    rewritten_congr (appendStarts_conv st t e) (by rw [appendStarts_self]; rfl)
  have hn : ((appendStarts st t e).recs t).nfields = (st.recs t).nfields := by
    rw [appendStarts_self]; rfl
  refine ⟨e, he, ?_⟩
  rw [← hlay] at hrw hn ⊢
  rw [FitsRec.scaleBack, final_bind_ok (getRec_apply st t)]
  simp only []
  split <;> next hasc =>
  simp only [hasc, Bool.false_eq_true, ↓reduceIte] at hrw hn
  exact final_bind_of_stays (ColumnsFrame.refl _ _ _) fun y =>
    stays_getRec_bind fun _ hr => stays_bind (stays_setRec_heapsize hr 0) fun _ _ _ _ _ =>
      stays_forM fun i hi => stays_scaleBackColumn y.1 y.2 i fun _ hc hw j hj =>
        ⟨i, by rw [← hn, FitsRec.nfields, ← (fields_of_heapsize_zero hr).2.1]; exact List.mem_range.mp hi,
          by rw [← hrw]; exact ⟨by rw [hc]; rfl, .inl hw, rfl, j, hj, rfl⟩⟩

/-- `_scale_back` of another table `u` of a binary kind, whether it returns or raises, leaves a
store that agrees with the one it started on, for table `t`, up to the rows `u`'s loop may
rewrite. -/
theorem agree_scaleBack_other {u : Nat} (hne : t ≠ u) (st : Store) (hbin : (st.recs u).coldefs.isAscii = false) :
    Agree t (Rewrites st u) st (final (FitsRec.scaleBack u) st) := by
  obtain ⟨e, he, h⟩ := scaleBack_rewrites u st
  rw [he hbin, appendStarts_nil] at h
  exact ⟨h.conv.symm, (h.others t hne).symm, h.tnull.symm, fun b p hb => h.mem b p (Ne.symm hb)⟩

end Call

/-! ## A slice's `_scale_back` before its table's -/

section Slice

open FieldCache SliceView

/-- The flags of `_get_scale_factors` for a column `field` returns raw describe a column whose
turn of `_scale_back` writes nothing, outside an ASCII table. -/
theorem writesRaw_of_uncached {cd : ColDefs} {k : Nat} (h : Uncached cd k) (ha : cd.isAscii = false) :
    writesRaw cd k = false := by
  obtain ⟨spec, sf, hrf, hsf, hc⟩ := h
  have hn := (getScaleFactors_flags hsf).1
  unfold writesRaw
  rw [hrf, hsf]
  dsimp only
  rcases hc with hs | ⟨-, hsc, hb⟩
  · simp [hn, hs, ha]
  · cases hs : sf.str <;> simp_all

/-- A column whose turn writes nothing has the flags of a column `field` returns raw, outside an
ASCII table. -/
theorem uncached_of_writesRaw {cd : ColDefs} {k : Nat} {spec : String} {sf : ScaleFactors}
    (hrf : (cd.col k).recformat = .plain spec) (hsf : getScaleFactors cd k = .ok sf)
    (hw : writesRaw cd k = false) : Uncached cd k := by
  have hn := (getScaleFactors_flags hsf).1
  unfold writesRaw at hw
  rw [hrf, hsf] at hw
  dsimp only at hw
  refine ⟨spec, sf, hrf, hsf, ?_⟩
  cases hs : sf.str <;> cases hb : sf.bool <;> simp_all

/-- `_get_scale_factors` never raises on the binary descriptors of a slice. -/
theorem getScaleFactors_binary (cd : ColDefs) (arrays : List (Option Nat)) (shape k : Nat) (e : PyError) :
    getScaleFactors { cd with tbtype := "BinTableHDU", arrays := arrays, shape := shape } k ≠ .error e := by
  simp [getScaleFactors, ColDefs.isBinary, bind, Except.bind, pure, Except.pure]

/-- A column whose turn writes under the slice's binary descriptors is one whose turn writes,
or raises, under the table's own, when the columns `field` returns raw are the same under both. -/
theorem writesRaw_of_slice {cd : ColDefs} (hraw : RawInSlice cd) {k : Nat} (hk : k < cd.columns.length)
    (arrays : List (Option Nat)) (shape : Nat)
    (hw : writesRaw { cd with tbtype := "BinTableHDU", arrays := arrays, shape := shape } k = true) :
    writesRaw cd k = true ∨ FailsFactors cd k := by
  cases hrf : (cd.col k).recformat with
  | x nx => exact .inl (by simp only [writesRaw, hrf])
  | p dt =>
    cases hsf : getScaleFactors cd k with
    | error e => exact .inr ⟨fun nx h => (by rw [hrf] at h; cases h), e, hsf⟩
    | ok sf => exact .inl (by unfold writesRaw; rw [hrf, hsf])
  | plain spec =>
    cases hsf : getScaleFactors cd k with
    | error e => exact .inr ⟨fun nx h => (by rw [hrf] at h; cases h), e, hsf⟩
    | ok sf =>
      refine .inl (Bool.eq_false_imp_eq_true.mp fun hf => ?_)
      have hu := (uncached_arrays arrays shape).mpr (hraw k hk (uncached_of_writesRaw hrf hsf hf))
      rw [writesRaw_of_uncached hu rfl] at hw
      cases hw

variable {st : Store} {t u : Nat} {start step : Int}

/-- The rows a slice's `_scale_back` may rewrite are rows its table's `_scale_back` rewrites, or
rows of a column whose turn in the table's `_scale_back` raises. -/
theorem rewrites_sub_of_slice (h : SliceOf st t u start step) (hraw : RawInSlice (st.recs t).coldefs)
    (b : Base) (p : Int) (hr : Rewrites st u b p) : ∃ k < (st.recs t).nfields, Rewritten st t k b p := by
  obtain ⟨k, hk, hsome, hw, hb, j, hj, hp⟩ := hr
  obtain ⟨arrays, shape, hcd⟩ := h.coldefs
  rw [h.nfields] at hk
  rw [FitsRec.rawField_len] at hj
  have hw' : writesRaw (st.recs t).coldefs k = true ∨ FailsFactors (st.recs t).coldefs k := by
    rw [hcd] at hw
    rcases hw with hw | ⟨-, e, he⟩
    · exact writesRaw_of_slice hraw hk arrays shape hw
    · exact absurd he (getScaleFactors_binary _ arrays shape k e)
  refine ⟨k, hk, ?_, hw', ⟨by rw [hb]; simp [h.buf], (start + j * step).toNat,
    (Int.toNat_lt (h.rows j hj).1).mpr (h.rows j hj).2, ?_⟩⟩
  · rcases h.slots k hk with ⟨cv, hct, -⟩ | ⟨-, hu⟩
    · rw [hct]; rfl
    · rw [hu] at hsome; cases hsome
  · obtain ⟨h0, -⟩ := h.rows j hj
    rw [hp]
    simp only [View.pos, FitsRec.rawField, h.offset, h.stride, Int.toNat_of_nonneg h0]
    ring

/-- With `u = t[s]`, after any run of cell writes through `t` and `u`, when `t._scale_back()`
returns it also returns after `u._scale_back()` has run first, returned or raised, and the two
leave the same memory and the same table `t`, `_heapsize` included. -/
theorem slice_scale_back_first_agrees (st : Store) (t u : Nat) (s : Slice) (hal : CacheAligned st t)
    (hraw : RawInSlice (st.recs t).coldefs) (hnext : t < st.next) (hconv : (st.recs t).convert < st.next)
    (hget : returned (FitsRec.getItem t (.slice s)) st = some (.table u)) :
    ∀ ops : List Op, (∀ op ∈ ops, op.IsCellWriteOf t ∨ op.IsCellWriteOf u) → ∀ st3,
      FitsRec.scaleBack t (runOps ops (final (FitsRec.getItem t (.slice s)) st)) = .ok ⟨⟩ st3 →
      ∃ st4, FitsRec.scaleBack t (final (FitsRec.scaleBack u) (runOps ops (final (FitsRec.getItem t (.slice s)) st))) =
        .ok ⟨⟩ st4 ∧ st4.mem = st3.mem ∧ st4.recs t = st3.recs t := by
  obtain ⟨start, step, -, ht, hne, hS⟩ := select_slice hal hraw hnext hconv (getItem_slice_ok hget)
  intro ops hops st3 h
  have hrun := runOps_cellWrites ops _ hops hS.settled hS.settled_slice
  have hS2 := hS.of_sameTables hrun
  have hraw2 : RawInSlice ((runOps ops (final (FitsRec.getItem t (.slice s)) st)).recs t).coldefs := by
    rw [hrun.2, ht]; exact hraw
  refine scaleBack_agree (rewrites_sub_of_slice hS2 hraw2) (fun k cv hc => ⟨(hS2.aligned k cv hc).1, fun j _ hr => ?_⟩)
    (agree_scaleBack_other hne _ hS2.not_ascii) h
  obtain ⟨id, hid⟩ := (hS2.aligned k cv hc).2
  obtain ⟨_, _, _, _, hb, _⟩ := hr
  rw [hid] at hb
  cases hb

theorem reversed_slice_scale_back_agrees :
    CacheAligned flagsAndCounts 0 ∧ RawInSlice (flagsAndCounts.recs 0).coldefs ∧ 0 < flagsAndCounts.next ∧
    (flagsAndCounts.recs 0).convert < flagsAndCounts.next ∧
    returned (FitsRec.getItem 0 (.slice ⟨none, none, some (-1)⟩)) flagsAndCounts = some (.table 1) ∧
    ∀ ops : List Op, (∀ op ∈ ops, op.IsCellWriteOf 0 ∨ op.IsCellWriteOf 1) → ∀ st3,
      FitsRec.scaleBack 0 (runOps ops (final (FitsRec.getItem 0 (.slice ⟨none, none, some (-1)⟩)) flagsAndCounts)) =
        .ok ⟨⟩ st3 →
      ∃ st4, FitsRec.scaleBack 0 (final (FitsRec.scaleBack 1)
          (runOps ops (final (FitsRec.getItem 0 (.slice ⟨none, none, some (-1)⟩)) flagsAndCounts))) =
        .ok ⟨⟩ st4 ∧ st4.mem = st3.mem ∧ st4.recs 0 = st3.recs 0 :=
  have hal : CacheAligned flagsAndCounts 0 := fun _ _ h => Option.noConfusion h
  have hraw : RawInSlice (flagsAndCounts.recs 0).coldefs := rawInSlice_of_binary rfl
  ⟨hal, hraw, by decide, by decide, by decide,
    slice_scale_back_first_agrees flagsAndCounts 0 1 _ hal hraw (by decide) (by decide) (by decide)⟩

end Slice

end PyFits.ScaleBackOblivious
