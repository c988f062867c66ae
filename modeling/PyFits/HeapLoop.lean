import PyFits.Reload

/-!
# The heap across the loop of `_scale_back`

`_scale_back` sets `_heapsize` to zero, and the turn of every variable-length (`P`) column whose
slot is filled lays the column's rows out on the heap from the `_heapsize` the turns before it
reached, then adds the column's size, the element size times the sum of the stored counts. No
other step of a turn changes a table. So when the call returns, `_heapsize` is the sum of the
sizes of the filled `P` columns (`scaleBack_heap_total`), and the descriptors of a `P` column of
a binary table that is neither scaled nor logical lay its rows out from the sum of the sizes of
the columns before it (`scaleBack_heap_offsets`): the heap areas of the columns follow one
another in column order.

The sizes are computed from the cached rows, which the loop never writes, so they are the sizes
the store the call starts on gives.
-/

namespace PyFits.HeapLoop

open ScaleBackFrame HeapLayout Reload FieldCache

/-! ## The size of a column on the heap -/

/-- The counts `_scale_back` stores for a `P` column of `n` rows whose rows have the lengths
`npts`: `desc[:len(_npts),0] = _npts`, in `int32`. -/
def heapCounts (n : Nat) (npts : List Nat) : List Int :=
  (List.range n).map fun j => if j < npts.length then wrapInt 4 true (npts.getD j 0) else 0

@[simp] theorem heapCounts_length (n : Nat) (npts : List Nat) : (heapCounts n npts).length = n := by
  simp [heapCounts]

/-- What the turn of column `k` of table `t` adds to `_heapsize`, `desc[:,0].sum()*_dtype.itemsize`,
for a `P` column whose slot is filled, from its cached rows; nothing for any other column. A
turn whose `map(len, ...)` or `dtype` raises adds nothing, since the call then raises. -/
def heapShare (st : Store) (t k : Nat) : Int :=
  match ((st.recs t).coldefs.col k).recformat, st.conv (st.recs t).convert k with
  | .p dt, some cv =>
    match rowLengths (st.read cv), heapItemsize? dt with
    | .ok npts, some w => w * (heapCounts (st.recs t).len npts).sum
    | _, _ => 0
  | _, _ => 0

/-- A column that is not a `P` column, or whose slot is empty, adds nothing. -/
theorem heapShare_eq_zero {st : Store} {t k : Nat}
    (h : ∀ dt cv, ((st.recs t).coldefs.col k).recformat = .p dt → st.conv (st.recs t).convert k = some cv → False) :
    heapShare st t k = 0 := by
  unfold heapShare
  split
  · exact absurd (h _ _ ‹_› ‹_›) id
  · rfl

/-- Where the heap area of column `k` starts: the sizes of the columns before it. -/
def heapStart (st : Store) (t k : Nat) : Int :=
  ((List.range k).map (heapShare st t)).sum

theorem heapStart_succ (st : Store) (t k : Nat) :
    heapStart st t (k + 1) = heapStart st t k + heapShare st t k := by
  simp [heapStart, List.range_succ]

/-! ## Steps that keep the tables -/

section Keeps

variable {R : Nat → FitsRec}

theorem keeps_setAll (v : View) (xs : List Elem) : Stays (fun s => s.recs = R) (v.setAll xs) :=
  stays_bind (stays_liftExcept _) fun _ _ _ _ _ _ hst => by simpa [final] using hst

theorem keeps_setItem (v : View) (i : Int) (x : Elem) : Stays (fun s => s.recs = R) (v.setItem i x) :=
  fun st hst => (View.final_setItem_recs v i x st).trans hst

/-- The branches of a turn after the `P` branch change no table. -/
theorem keeps_scaleBackValues (self : Nat) (r : FitsRec) (loc : List Int) (widths : List (Option Nat)) (indx : Nat)
    (conv : List Elem) (sf : ScaleFactors) :
    Stays (fun s => s.recs = R) (scaleBackValues self r loc widths indx conv sf) :=
  (rules_stays self _).valuesBranch () (keeps_setAll _) (keeps_setItem _) loc widths conv sf

/-- A step that keeps the tables and returns keeps them. -/
theorem recs_of_keeps {α : Type} {m : M α} {s s' : Store} {a : α} (hm : Stays (fun st => st.recs = s.recs) m)
    (h : m s = .ok a s') : s'.recs = s.recs :=
  final_ok h ▸ hm s rfl

end Keeps

/-! ## The `P` branch -/

/-- The `P` branch, when it returns: the rows have lengths and the element type a size, the
descriptors are laid out from `_heapsize`, which grows by the column's size, and nothing else of
the tables changes. -/
theorem scaleBackP_ok {self : Nat} {conv : List Elem} {dt : String} {desc : View} {s s' : Store}
    (h : scaleBackP self conv dt desc s = .ok () s') :
    ∃ npts w, rowLengths conv = .ok npts ∧ heapItemsize? dt = some w ∧
      s'.recs = setAt s.recs self
        { s.recs self with heapsize := (s.recs self).heapsize + w * (heapCounts desc.len npts).sum } ∧
      (desc.stride ≠ 0 → s'.read desc = descriptors (heapCounts desc.len npts) w (s.recs self).heapsize) := by
  unfold scaleBackP at h
  obtain ⟨_, s1, h1, h⟩ := bind_ok_inv h
  cases hr : rowLengths conv with
  | error e => simp [hr] at h
  | ok npts =>
  simp only [hr, liftExcept_ok_bind] at h
  by_cases hif : npts.length > desc.len ∧ npts.length ≠ 1
  · simp [hif] at h
  simp only [hif, if_false, pure_bind] at h
  obtain ⟨_, s3, h3, h⟩ := bind_ok_inv h
  cases hw : heapItemsize? dt with
  | none => simp [hw] at h
  | some w =>
  simp only [hw, Option.elim, liftExcept_ok_bind, getRec_bind] at h
  obtain ⟨⟨⟩, s5, h5, h⟩ := bind_ok_inv h
  simp only [setRec_apply, EStateM.Result.ok.injEq, true_and] at h
  subst h
  have h3r : s3.recs = s.recs := (recs_of_keeps (keeps_setAll _ _) h3).trans (recs_of_keeps (keeps_setAll _ _) h1)
  rw [h3r] at h5
  refine ⟨npts, w, rfl, rfl, by rw [recs_of_keeps (keeps_setAll _ _) h5, h3r]; rfl, fun hs => ?_⟩
  exact (setAll_read hs (by simp [descriptors]) h5 :)

/-! ## One turn of the loop -/

section Turn

variable {t c : Nat} {loc : List Int} {widths : List (Option Nat)} {st2 s s' : Store}

/-- The turn of a column that is not a `P` column changes no table. -/
theorem keeps_scaleBackColumn {R : Nat → FitsRec} (hrf : ∀ dt, ((R t).coldefs.col c).recformat ≠ .p dt) :
    Stays (fun s => s.recs = R) (scaleBackColumn t loc widths c) := by
  unfold scaleBackColumn
  refine stays_bind (stays_getRec t) fun st _ _ hst hr => ?_
  obtain ⟨rfl, -⟩ := getRec_ok hr
  refine stays_bind (stays_getConv _ _) fun _ _ _ _ _ => ?_
  split
  · exact stays_pure ()
  · refine stays_bind (stays_readView _) fun _ conv _ _ _ => ?_
    dsimp only
    split
    · exact (rules_stays t _).wrapx () (keeps_setAll _) _ _
    · refine stays_bind (stays_liftExcept _) fun _ sf _ _ _ => ?_
      split
      · next hp => exact absurd (hst ▸ hp) (hrf _)
      · exact stays_bind (stays_pure ()) fun _ _ _ _ _ => keeps_scaleBackValues _ _ _ _ _ _ _

/-- The turn of a `P` column whose slot is filled, when it returns: `_get_scale_factors` returned,
then the `P` branch on the cached rows, and what follows it changes no table; in a binary table
it writes nothing more unless the column is scaled or logical. -/
theorem turn_p {dt : String} {cv : View} (hs : ColumnsFrame t (RawFields st2 t) st2 s)
    (hrf : ((st2.recs t).coldefs.col c).recformat = .p dt) (hcv : st2.conv (st2.recs t).convert c = some cv)
    (harr : ∃ id, cv.base = .arr id) (h : scaleBackColumn t loc widths c s = .ok () s') :
    ∃ sf s1, getScaleFactors (st2.recs t).coldefs c = .ok sf ∧
      scaleBackP t (st2.read cv) dt ((st2.recs t).rawField c) s = .ok () s1 ∧ s'.recs = s1.recs ∧
      (sf.bool = false → (sf.scale || sf.zero) = false → (st2.recs t).coldefs.isAscii = false → s' = s1) := by
  obtain ⟨hconv, hread⟩ := loop_cache hs hcv harr
  simp only [scaleBackColumn, getRec_bind, getConv_bind, hconv, readView_bind, hread, hs.coldefs, hrf,
    hs.rawField] at h
  cases hsf : getScaleFactors (st2.recs t).coldefs c with
  | error e => simp [hsf] at h
  | ok sf =>
  simp only [hsf, liftExcept_ok_bind] at h
  obtain ⟨⟨⟩, s1, h1, h⟩ := bind_ok_inv h
  refine ⟨sf, s1, rfl, h1, recs_of_keeps (keeps_scaleBackValues _ _ _ _ _ _ _) h, fun hb hsc ha => ?_⟩
  have hn := (getScaleFactors_flags hsf).1
  simp [scaleBackValues, hs.coldefs, hn, hb, hsc, ha] at h
  exact h.symm

/-- One turn of the loop adds the column's size to `_heapsize`. -/
theorem turn_heapsize (hal : CacheAligned st2 t) (hs : ColumnsFrame t (RawFields st2 t) st2 s)
    (h : scaleBackColumn t loc widths c s = .ok () s') :
    (s'.recs t).heapsize = (s.recs t).heapsize + heapShare st2 t c := by
  cases hcv : st2.conv (st2.recs t).convert c with
  | none =>
    simp only [scaleBackColumn, getRec_bind, getConv_bind, hs.conv, hs.convert, hcv, pure_apply,
      EStateM.Result.ok.injEq, true_and] at h
    rw [h, heapShare_eq_zero (fun _ _ _ hc => by rw [hcv] at hc; cases hc), Int.add_zero]
  | some cv =>
  cases hrf : ((st2.recs t).coldefs.col c).recformat with
  | p dt =>
    obtain ⟨-, s1, -, hP, hr, -⟩ := turn_p hs hrf hcv (hal c cv hcv).2 h
    obtain ⟨npts, w, hn, hw, hr1, -⟩ := scaleBackP_ok hP
    rw [hr, hr1, setAt_same]
    simp [heapShare, hrf, hcv, hn, hw, hs.len]
  | _ =>
    rw [recs_of_keeps (keeps_scaleBackColumn fun _ hp => by rw [hs.coldefs, hrf] at hp; cases hp) h,
      heapShare_eq_zero (fun _ _ hp _ => by rw [hrf] at hp; cases hp), Int.add_zero]

end Turn

/-! ## The whole loop -/

section Loop

variable {t c : Nat} {loc : List Int} {widths : List (Option Nat)} {st2 st' : Store}

/-- The loop, turn after turn: `_heapsize` has grown by the sizes of the columns done, and the
raw field of column `c`, once its turn is done, holds what that turn wrote. -/
theorem loop_heap {n : Nat} {P : List Elem → Prop} (hal : CacheAligned st2 t)
    (hturn : ∀ s s', ColumnsFrame t (RawFields st2 t) st2 s →
      (s.recs t).heapsize = (st2.recs t).heapsize + heapStart st2 t c →
      scaleBackColumn t loc widths c s = .ok () s' → P (s'.read ((st2.recs t).rawField c)))
    (hl : (List.range n).forM (scaleBackColumn t loc widths) st2 = .ok () st') :
    (st'.recs t).heapsize = (st2.recs t).heapsize + heapStart st2 t n ∧
      (c < n → P (st'.read ((st2.recs t).rawField c))) :=
  @loop_frame t c n loc widths st2 st' P (fun i s => (s.recs t).heapsize = (st2.recs t).heapsize + heapStart st2 t i)
    (by simp [heapStart]) (fun i s s' hs hH hi => by
      dsimp only at hH ⊢
      rw [turn_heapsize hal hs hi, hH, heapStart_succ, Int.add_assoc])
    hturn hl

end Loop

/-! ## The whole call -/

section Call

variable {t : Nat} {st st' : Store}

/-- The sizes of the columns do not depend on `_heapsize` or `starts`, nor on anything but the
memory, the cache lists and the table. -/
theorem heapShare_congr {st2 : Store} {e : List Int} (hmem : st2.mem = st.mem) (hconv : st2.conv = st.conv)
    (hrec : st2.recs t = { withStarts (st.recs t) e with heapsize := 0 }) (k : Nat) :
    heapShare st2 t k = heapShare st t k := by
  simp only [heapShare, Store.read, hmem, hconv, hrec]
  rfl

theorem heapStart_congr {st2 : Store} {e : List Int} (hmem : st2.mem = st.mem) (hconv : st2.conv = st.conv)
    (hrec : st2.recs t = { withStarts (st.recs t) e with heapsize := 0 }) (k : Nat) :
    heapStart st2 t k = heapStart st t k := by
  rw [heapStart, heapStart, funext (heapShare_congr hmem hconv hrec)]

theorem cacheAligned_congr {st2 : Store} {e : List Int} (hconv : st2.conv = st.conv)
    (hrec : st2.recs t = { withStarts (st.recs t) e with heapsize := 0 }) (hal : CacheAligned st t) :
    CacheAligned st2 t := fun k cv hc => by
  rw [hconv, hrec] at hc
  rw [hrec]
  exact hal k cv hc

/-- When `_scale_back` returns on a table whose cache is aligned, `_heapsize` is the sum of the
sizes of its `P` columns whose slot is filled, each computed from the column's cached rows. -/
theorem scaleBack_heap_total (hal : CacheAligned st t) (h : FitsRec.scaleBack t st = .ok () st') :
    (st'.recs t).heapsize = heapStart st t (st.recs t).nfields := by
  obtain ⟨loc, widths, st2, hmem, hconv, ⟨e, hrec⟩, hl⟩ := scaleBack_ok_loop h
  have hloop := @loop_heap t 0 loc widths st2 st' _ (fun _ => True) (cacheAligned_congr hconv hrec hal)
    (fun _ _ _ _ _ => trivial) hl
  rw [hloop.1, heapStart_congr hmem hconv hrec, hrec, Int.zero_add]

/-- A binary table of one row with two `PI` columns, the row `[1]` at heap byte `0` and the row
`[2]` at heap byte `2`. -/
def twoHeaps : Store :=
  Store.ofTable "BinTableHDU" [⟨"a", "PI(1)", .p "i2", none, none, ""⟩, ⟨"b", "PI(1)", .p "i2", none, none, ""⟩] []
    [[.nums [.int 1, .int 0], .nums [.int 1, .int 2]]] [0, 1, 0, 2]

/-- `twoHeaps` after a client has grown the row of the first column to three elements through
the array `field` caches, and read the second column. -/
def grown : Store :=
  final (do
    let v ← FitsRec.field 0 (.pos 0)
    v.setItem 0 (.nums [.int 1, .int 5, .int 7])
    let w ← FitsRec.field 0 (.pos 1)
    w.setItem 0 (.nums [.int 2])) twoHeaps

/-- `grown` once `_scale_back` has run. -/
def grownSaved : Store := final (FitsRec.scaleBack 0) grown

theorem grown_saved : FitsRec.scaleBack 0 grown = .ok () grownSaved := ok_final_of_returned (by decide)

theorem grown_conv (k : Nat) : grown.conv (grown.recs 0).convert k =
    if k = 1 then some ⟨.arr 2, 0, 1, 1, .obj⟩ else if k = 0 then some ⟨.arr 1, 0, 1, 1, .obj⟩ else none := by
  rcases k with _ | _ | k <;> rfl

theorem grown_cacheAligned : CacheAligned grown 0 := fun k cv hc => by
  rw [grown_conv] at hc
  split_ifs at hc <;> cases hc <;> exact ⟨by decide, _, rfl⟩

/-- Saving `grown` sets `_heapsize` to the `6` bytes of the first column and the `2` of the second. -/
theorem grown_heap_total :
    FitsRec.scaleBack 0 grown = .ok () grownSaved ∧ (grownSaved.recs 0).heapsize = heapStart grown 0 2 ∧
      heapStart grown 0 2 = 8 :=
  ⟨grown_saved, scaleBack_heap_total grown_cacheAligned grown_saved, by decide⟩

/-- When `_scale_back` returns on a binary table whose cache is aligned, a `P` column whose slot
is filled and which is neither scaled nor logical holds the descriptors of its cached rows laid
out from where its heap area starts, after the sizes of the columns before it. -/
theorem scaleBack_heap_offsets {c : Nat} {dt : String} {sf : ScaleFactors} {cv : View}
    (hal : CacheAligned st t) (ha : (st.recs t).coldefs.isAscii = false) (hc : c < (st.recs t).nfields)
    (hrf : ((st.recs t).coldefs.col c).recformat = .p dt) (hcv : st.conv (st.recs t).convert c = some cv)
    (hsf : getScaleFactors (st.recs t).coldefs c = .ok sf) (hb : sf.bool = false)
    (hsc : (sf.scale || sf.zero) = false) (hs : (st.recs t).stride ≠ 0)
    (h : FitsRec.scaleBack t st = .ok () st') :
    ∃ npts w, rowLengths (st.read cv) = .ok npts ∧ heapItemsize? dt = some w ∧
      st'.read ((st'.recs t).rawField c) = descriptors (heapCounts (st.recs t).len npts) w (heapStart st t c) := by
  obtain ⟨loc, widths, st2, hmem, hconv, ⟨e, hrec⟩, hl⟩ := scaleBack_ok_loop h
  have hal2 := cacheAligned_congr hconv hrec hal
  have hcv2 : st2.conv (st2.recs t).convert c = some cv := by rw [hconv, hrec]; exact hcv
  have hread : st2.read cv = st.read cv := by simp only [Store.read, hmem]
  have hloop := @loop_heap t c loc widths st2 st' _ (fun xs => ∃ npts w, rowLengths (st.read cv) = .ok npts ∧
      heapItemsize? dt = some w ∧ xs = descriptors (heapCounts (st.recs t).len npts) w (heapStart st t c)) hal2
    (fun s s' hs' hH hturn => by
      obtain ⟨sf', s1, hsf', hP, -, hnone⟩ := turn_p hs' (by rw [hrec]; exact hrf) hcv2 (hal2 c cv hcv2).2 hturn
      rw [hrec, withStarts, getScaleFactors_starts, hsf, Except.ok.injEq] at hsf'
      subst hsf'
      rw [hnone hb hsc (by rw [hrec]; exact ha)]
      obtain ⟨npts, w, hn, hw, -, hd⟩ := scaleBackP_ok hP
      refine ⟨npts, w, hread ▸ hn, hw, ?_⟩
      rw [hd (by rw [hrec]; exact hs), hH, heapStart_congr hmem hconv hrec, hrec, Int.zero_add]
      rfl) hl
  obtain ⟨n, e', -, -, hrec', -⟩ := (final_ok h ▸ scaleBack_effect t st).table
  rw [show (st'.recs t).rawField c = (st2.recs t).rawField c by rw [hrec, hrec']; rfl]
  exact hloop.2 hc

/-- Saving `grown` moves the row of the second column to heap byte `6`, after the three elements
of the first. -/
theorem grown_heap_offsets :
    FitsRec.scaleBack 0 grown = .ok () grownSaved ∧ heapStart grown 0 1 = 6 ∧
      ∃ npts w, rowLengths (grown.read ⟨.arr 2, 0, 1, 1, .obj⟩) = .ok npts ∧ heapItemsize? "i2" = some w ∧
        grownSaved.read ((grownSaved.recs 0).rawField 1) =
          descriptors (heapCounts (grown.recs 0).len npts) w (heapStart grown 0 1) :=
  ⟨grown_saved, by decide, scaleBack_heap_offsets grown_cacheAligned (by decide) (by decide) rfl (grown_conv 1)
    (show getScaleFactors _ 1 = .ok ⟨false, false, true, false, false, fltOne, fltZero⟩ from rfl) rfl rfl
    (by decide) grown_saved⟩

end Call

end PyFits.HeapLoop
