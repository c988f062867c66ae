import PyFits.Table

/-!
# What `field` does to the cache

`field` fills the `_convert` slot of the column it converts, with a new array of one element per
row, and changes no other slot and no `FITS_rec` object: reading the heap moves only the file
position. A column `field` does not cache (a string column, an unscaled numeric column of a
binary table) is returned as its raw field, and `field` on it changes nothing at all.

So once every slot of a table is filled or belongs to such a column, the table is *settled*:
`field` on it only reads, and returns the cached array or the raw field.
-/

namespace PyFits.FieldCache

/-! ## Columns `field` returns raw -/

/-- Column `indx` is one that `field` never caches: a string column, or an unscaled numeric
(not logical) column of a binary table. -/
def Uncached (cd : ColDefs) (indx : Nat) : Prop :=
  ∃ spec sf, (cd.col indx).recformat = .plain spec ∧ getScaleFactors cd indx = .ok sf ∧
    (sf.str = true ∨ (cd.isAscii = false ∧ (sf.number && (sf.scale || sf.zero)) = false ∧ sf.bool = false))

theorem convertField_uncached {r : FitsRec} {indx : Nat} (h : Uncached r.coldefs indx) (st : Store) :
    convertField r indx st = .ok none st := by
  obtain ⟨spec, sf, hrf, hsf, hc⟩ := h
  simp only [convertField, readView_bind, hrf, hsf, liftExcept_ok_bind]
  rcases hc with hs | ⟨ha, hn, hb⟩
  · simp [hs]
  · cases hs : sf.str <;> simp [hs, ha, hn, hb, getAsciiTNull, Functor.map, EStateM.map]

theorem map_some_ne_none {α : Type} {m : M α} {st st' : Store} : (some <$> m) st ≠ .ok none st' := by
  intro h
  simp only [Functor.map, EStateM.map] at h
  split at h <;> simp at h

/-- `field` leaves a column uncached only when it is one of the columns it never caches, and
then it has changed nothing. -/
theorem convertField_none {r : FitsRec} {indx : Nat} {st st' : Store}
    (h : convertField r indx st = .ok none st') : Uncached r.coldefs indx ∧ st' = st := by
  simp only [convertField, readView_bind] at h
  cases hrf : (r.coldefs.col indx).recformat with
  | x nx => simp only [hrf] at h; exact absurd h map_some_ne_none
  | p dt =>
    simp only [hrf] at h
    cases hsf : getScaleFactors r.coldefs indx with
    | error e => simp [hsf] at h
    | ok sf => simp only [hsf, liftExcept_ok_bind] at h; exact absurd h map_some_ne_none
  | plain spec =>
    simp only [hrf] at h
    cases hsf : getScaleFactors r.coldefs indx with
    | error e => simp [hsf] at h
    | ok sf =>
      simp only [hsf, liftExcept_ok_bind] at h
      by_cases hs : sf.str = true
      · simp only [hs, if_true, pure_apply, EStateM.Result.ok.injEq, true_and] at h
        exact ⟨⟨spec, sf, hrf, hsf, .inl hs⟩, h.symm⟩
      · simp only [hs, Bool.false_eq_true, if_false, getAsciiTNull_bind] at h
        cases ha : r.coldefs.isAscii
        · simp only [ha, Bool.false_eq_true, if_false, pure_bind] at h
          split at h
          · exact absurd h map_some_ne_none
          · split at h
            · exact absurd h map_some_ne_none
            · next hn hb =>
              simp only [pure_apply, EStateM.Result.ok.injEq, true_and] at h
              exact ⟨⟨spec, sf, hrf, hsf, .inr ⟨ha, by simpa using hn, by simpa using hb⟩⟩, h.symm⟩
        · simp only [ha, if_true] at h
          cases hd : decodeAscii (r.coldefs.col indx) st.asciiTNull (st.read (r.rawField indx)) with
          | error e =>
            simp [hd, liftExcept, bind, EStateM.bind, Functor.map, EStateM.map, throw, throwThe,
              MonadExceptOf.throw, EStateM.throw] at h
          | ok d =>
            simp only [hd, liftExcept, map_pure, pure_bind] at h
            split at h
            · exact absurd h map_some_ne_none
            · split at h
              · exact absurd h map_some_ne_none
              · simp at h

/-! ## A conversion changes no table -/

section Files

/-- An invariant that no change of the files can break. -/
def FilesClosed (I : Store → Prop) : Prop := ∀ st fs, I st → I { st with files := fs }

variable {I : Store → Prop}

theorem stays_seek (hI : FilesClosed I) (file : Option Nat) (offset : Int) : Stays I (seek file offset) := by
  intro st h
  cases file with
  | none => exact h
  | some f => by_cases ho : offset < 0 <;> simp only [final, seek, ho, if_true, if_false] <;> first | exact h | exact hI _ _ h

theorem stays_fromfile (hI : FilesClosed I) (file size : Nat) (count : Int) : Stays I (fromfile file size count) := by
  intro st h
  simp only [final, fromfile]
  split_ifs <;> exact hI _ _ h

theorem stays_readHeap (hI : FilesClosed I) (file : Option Nat) (offset count : Int) (dt : String) :
    Stays I (readHeap file offset count dt) := by
  unfold readHeap
  refine stays_bind (stays_seek hI _ _) fun _ _ _ _ _ => stays_bind (stays_liftExcept _) fun _ _ _ _ _ =>
    stays_bind (stays_fromfile hI _ _ _) fun _ _ _ _ _ => ?_
  repeat' (first | exact stays_pure _ | exact stays_throw _ | split)

theorem stays_getAttr {α : Type} (name : String) (a : Option α) : Stays I (getAttr name a) :=
  stays_of_final fun _ => by cases a <;> rfl

theorem stays_decodeP (hI : FilesClosed I) (r : FitsRec) (sf : ScaleFactors) (dt : String) (raw : List Elem) :
    Stays I (decodeP r sf dt raw) := by
  unfold decodeP
  refine stays_bind (stays_mapM fun e _ => ?_) fun _ _ _ _ _ => ?_
  · split
    · exact stays_bind (stays_getAttr _ _) fun _ _ _ _ _ => stays_bind (stays_getAttr _ _) fun _ _ _ _ _ =>
        stays_readHeap hI _ _ _ _
    · exact stays_throw _
  · repeat' (first
      | exact stays_pure _ | exact stays_liftExcept _
      | refine stays_bind ?_ fun _ _ _ _ _ => ?_
      | split)

/-- `convertField` reads the heap and changes nothing but the files, whether it returns or
raises. -/
theorem stays_convertField (hI : FilesClosed I) (r : FitsRec) (indx : Nat) : Stays I (convertField r indx) := by
  unfold convertField
  refine stays_bind (stays_readView _) fun _ _ _ _ _ => ?_
  simp only []
  repeat' (first
    | with_reducible exact stays_pure _ | with_reducible exact stays_throw_bind _ _
    | with_reducible exact stays_liftExcept _ | with_reducible exact stays_decodeP hI _ _ _ _
    | exact fun st h => h
    | with_reducible refine stays_map _ ?_ | with_reducible refine stays_ite ?_ ?_
    | with_reducible refine stays_bind ?_ fun _ _ _ _ _ => ?_ | split)

theorem convertField_files (r : FitsRec) (indx : Nat) (st : Store) :
    final (convertField r indx) st = { st with files := (final (convertField r indx) st).files } :=
  have hI : FilesClosed fun s => s = { st with files := s.files } := fun _ _ h => by rw [h]
  stays_convertField hI r indx st rfl

end Files

section Tables

/-- `st` has the cache lists and the tables of `st0`: only memory, files and fresh objects
may differ. -/
def SameTables (st0 st : Store) : Prop := st.conv = st0.conv ∧ st.recs = st0.recs

end Tables

theorem convertField_ok {r : FitsRec} {indx : Nat} {st st' : Store} {o : Option (List Elem)}
    (h : convertField r indx st = .ok o st') : st'.conv = st.conv ∧ st'.recs = st.recs := by
  have hs := convertField_files r indx st
  rw [final_ok h] at hs
  rw [hs]
  exact ⟨rfl, rfl⟩

/-! ## One value per row -/

theorem returns_decodeP_length (r : FitsRec) (sf : ScaleFactors) (dt : String) (raw : List Elem) :
    Returns (fun rows => rows.length = raw.length) (decodeP r sf dt raw) := by
  unfold decodeP
  refine returns_bind returns_mapM_length fun rows hrows => ?_
  simp only []
  by_cases hsc : (sf.scale || sf.zero) = true
  · simp only [hsc, if_true]
    refine returns_bind (returns_liftExcept fun ys hys => (except_mapM_length hys).trans hrows) fun ys hys => ?_
    split
    · exact returns_liftExcept fun zs hzs => (except_mapM_length hzs).trans hys
    · exact returns_pure hys
  · simp only [hsc, Bool.false_eq_true, if_false, pure_bind]
    split
    · exact returns_liftExcept fun zs hzs => (except_mapM_length hzs).trans hrows
    · exact returns_pure hrows

theorem decodeAscii_length {c : Column} {tnull : Int} {raw ys : List Elem}
    (h : decodeAscii c tnull raw = .ok ys) : ys.length = raw.length := by
  simp only [decodeAscii] at h
  split at h
  · split at h
    · exact except_mapM_length h
    · simp [throw, throwThe, MonadExceptOf.throw, Except.bind, bind] at h
  · simp [throw, throwThe, MonadExceptOf.throw, Except.bind, bind] at h

/-- The end of the conversion: scaling or comparing with `'T'` keeps one value per row. -/
theorem returns_convertTail (sf : ScaleFactors) {r : FitsRec} (dummy : List Elem) (cached : Bool)
    (h : dummy.length = r.len) :
    Returns (fun o => ∀ cells, o = some cells → cells.length = r.len)
      (if (sf.number && (sf.scale || sf.zero)) = true then some <$> liftExcept (scaleColumn sf dummy)
        else if sf.bool = true then some <$> liftExcept (equalT dummy)
        else pure (if cached = true then some dummy else none)) := by
  split
  · exact returns_map some (returns_liftExcept fun ys hys cells hc =>
      (Option.some.inj hc) ▸ (except_mapM_length hys).trans h)
  split
  · exact returns_map some (returns_liftExcept fun ys hys cells hc =>
      (Option.some.inj hc) ▸ (except_mapM_length hys).trans h)
  · refine returns_pure fun cells hc => ?_
    cases cached
    · simp at hc
    · simp only [if_true, Option.some.injEq] at hc
      exact hc ▸ h

/-- A column `field` converts has one value per row. -/
theorem returns_convertField (r : FitsRec) (indx : Nat) :
    Returns (fun o => ∀ cells, o = some cells → cells.length = r.len) (convertField r indx) := by
  have hraw : Returns (fun raw => raw.length = r.len) (readView (r.rawField indx)) := fun st _ _ h => by
    simp only [readView_apply, EStateM.Result.ok.injEq] at h
    simp [← h.1, Store.read]
  unfold convertField
  refine returns_bind hraw fun raw hlen => ?_
  dsimp only
  split
  · exact returns_map some (returns_liftExcept fun ys hys cells hc =>
      (Option.some.inj hc) ▸ (except_mapM_length hys).trans hlen)
  · refine returns_bind (returns_true _) fun sf _ => ?_
    split
    · exact returns_map some fun st rows st' h cells hc =>
        (Option.some.inj hc) ▸ (returns_decodeP_length r sf _ raw st rows st' h).trans hlen
    · split
      · exact returns_pure fun _ h => absurd h (by simp)
      · refine returns_bind (returns_true _) fun tnull _ => ?_
        split
        · exact returns_bind (returns_map _ (returns_liftExcept fun ys hys => (decodeAscii_length hys).trans hlen))
            fun y hy => returns_convertTail sf y.1 y.2 hy
        · rw [pure_bind]
          exact returns_convertTail sf raw false hlen

/-! ## `field` -/

theorem index_lt {names : List String} {key : Key} {n indx : Nat}
    (h : (getIndex names key >>= pyIndex n) = .ok indx) : indx < n := by
  cases hk : getIndex names key with
  | error e => simp [hk, bind, Except.bind] at h
  | ok i => simp only [hk, bind, Except.bind] at h; exact pyIndex_lt h

section Field

variable {self : Nat} {key : Key} {st st' : Store} {v : View}

/-- What `field` can do: return a filled slot, or the raw field of a column it never caches,
changing nothing; or fill the empty slot of its column with a new array of one element per row,
changing no other slot and no table. -/
theorem field_ok (h : FitsRec.field self key st = .ok v st') :
    ∃ indx, (getIndex (st.recs self).coldefs.names key >>= pyIndex (st.recs self).nfields) = .ok indx ∧
      st'.recs = st.recs ∧
      ((st.conv (st.recs self).convert indx = some v ∧ st' = st) ∨
       (st.conv (st.recs self).convert indx = none ∧ Uncached (st.recs self).coldefs indx ∧
          v = (st.recs self).rawField indx ∧ st' = st) ∨
       (st.conv (st.recs self).convert indx = none ∧ v.len = (st.recs self).len ∧ (∃ id, v.base = .arr id) ∧
          st'.conv = setAt st.conv (st.recs self).convert
            (setAt (st.conv (st.recs self).convert) indx (some v)))) := by
  simp only [FitsRec.field, getRec_bind] at h
  cases hk : (getIndex (st.recs self).coldefs.names key >>= pyIndex (st.recs self).nfields) with
  | error e => simp [hk] at h
  | ok indx =>
    simp only [hk, liftExcept_ok_bind, getConv_bind] at h
    refine ⟨indx, rfl, ?_⟩
    cases hc : st.conv (st.recs self).convert indx with
    | some w =>
      simp only [hc, pure_apply, EStateM.Result.ok.injEq] at h
      obtain ⟨rfl, rfl⟩ := h
      exact ⟨rfl, .inl ⟨rfl, rfl⟩⟩
    | none =>
      simp only [hc] at h
      match hcf : convertField (st.recs self) indx st with
      | .ok none s1 =>
        obtain ⟨hu, rfl⟩ := convertField_none hcf
        rw [bind_ok hcf] at h
        simp only [pure_apply, EStateM.Result.ok.injEq] at h
        obtain ⟨rfl, rfl⟩ := h
        exact ⟨rfl, .inr (.inl ⟨rfl, hu, rfl, rfl⟩)⟩
      | .ok (some cells) s1 =>
        obtain ⟨hconv, hrecs⟩ := convertField_ok hcf
        have hlen := returns_convertField _ indx st _ s1 hcf cells rfl
        rw [bind_ok hcf] at h
        simp only [newArray, bind, EStateM.bind, alloc, setConv, pure, EStateM.pure,
          EStateM.Result.ok.injEq] at h
        obtain ⟨rfl, rfl⟩ := h
        exact ⟨by simp [hrecs], .inr (.inr ⟨rfl, hlen, ⟨_, rfl⟩, by simp [hconv]⟩)⟩
      | .error e s1 => rw [bind_error hcf] at h; cases h

/-- Every filled slot of table `self` holds an array of its own with one element per row. -/
def CacheAligned (st : Store) (self : Nat) : Prop :=
  ∀ indx cv, st.conv (st.recs self).convert indx = some cv → cv.len = (st.recs self).len ∧ ∃ id, cv.base = .arr id

/-- `field(indx)` settles column `indx`: its slot is filled, or it is a column `field` never
caches; no other slot and no table changes, and the cache stays aligned. -/
theorem field_pos_settles {indx : Nat} (hal : CacheAligned st self) (hi : indx < (st.recs self).nfields)
    (h : FitsRec.field self (.pos indx) st = .ok v st') :
    st'.recs = st.recs ∧ CacheAligned st' self ∧
      (∀ l k, (l ≠ (st.recs self).convert ∨ k ≠ indx) → st'.conv l k = st.conv l k) ∧
      (st'.conv (st.recs self).convert indx = none → Uncached (st.recs self).coldefs indx) := by
  obtain ⟨j, hk, hrecs, hcase⟩ := field_ok h
  have hj : j = indx := by
    rw [show (getIndex (st.recs self).coldefs.names (.pos indx) >>= pyIndex (st.recs self).nfields) =
      .ok indx from pyIndex_of_lt hi] at hk
    exact (Except.ok.inj hk).symm
  subst hj
  rcases hcase with ⟨hs, rfl⟩ | ⟨-, hu, -, rfl⟩ | ⟨hnone, hlen, hbase, hconv⟩
  · exact ⟨rfl, hal, fun _ _ _ => rfl, fun h' => by rw [hs] at h'; cases h'⟩
  · exact ⟨rfl, hal, fun _ _ _ => rfl, fun _ => hu⟩
  · refine ⟨hrecs, fun k cv hcv => ?_, fun l k hlk => ?_, fun h' => ?_⟩
    · rw [hrecs, hconv] at *
      by_cases hk : k = j
      · subst hk
        simp only [setAt_same, Option.some.injEq] at hcv
        exact hcv ▸ ⟨hlen, hbase⟩
      · simp only [setAt_same, setAt_ne _ _ hk] at hcv
        exact hal k cv hcv
    · rw [hconv]
      rcases hlk with hl | hk
      · rw [setAt_ne _ _ hl]
      · by_cases hl : l = (st.recs self).convert
        · subst hl
          rw [setAt_same, setAt_ne _ _ hk]
        · rw [setAt_ne _ _ hl]
    · rw [hconv, setAt_same, setAt_same] at h'
      cases h'

end Field

/-! ## Settled tables -/

/-- Every column of table `self` has its slot filled or is one `field` never caches. -/
def Settled (st : Store) (self : Nat) : Prop :=
  ∀ indx < (st.recs self).nfields, st.conv (st.recs self).convert indx = none →
    Uncached (st.recs self).coldefs indx

/-- The array `field` returns for column `indx` of a settled table: the cached array, or else
the raw field. -/
def fieldView (st : Store) (self indx : Nat) : View :=
  (st.conv (st.recs self).convert indx).getD ((st.recs self).rawField indx)

section Settled

variable {self : Nat} {st0 st : Store}

theorem Settled.of_sameTables (h : Settled st0 self) (hst : SameTables st0 st) : Settled st self := by
  unfold Settled
  rw [hst.1, hst.2]
  exact h

/-- `field` on a settled table returns the cached array or the raw field, and changes nothing. -/
theorem field_settled (h : Settled st self) (key : Key) :
    FitsRec.field self key st =
      match getIndex (st.recs self).coldefs.names key >>= pyIndex (st.recs self).nfields with
      | .ok indx => .ok (fieldView st self indx) st
      | .error e => .error e st := by
  simp only [FitsRec.field, getRec_bind]
  cases hk : (getIndex (st.recs self).coldefs.names key >>= pyIndex (st.recs self).nfields) with
  | error e => simp
  | ok indx =>
    simp only [liftExcept_ok_bind, getConv_bind, fieldView]
    cases hc : st.conv (st.recs self).convert indx with
    | some w => simp
    | none =>
      dsimp only
      rw [bind_ok (convertField_uncached (h indx (index_lt hk) hc) st)]
      rfl

theorem stays_field (h : Settled st0 self) (key : Key) : Stays (SameTables st0) (FitsRec.field self key) := by
  intro st hst
  have hf := field_settled (h.of_sameTables hst) key
  cases hk : (getIndex (st.recs self).coldefs.names key >>= pyIndex (st.recs self).nfields) <;>
    simpa only [final, hf, hk] using hst

end Settled

theorem stays_setItem_tables {st0 : Store} (v : View) (i : Int) (x : Elem) :
    Stays (SameTables st0) (v.setItem i x) := fun st hst => by
  simpa only [SameTables, View.final_setItem_conv, View.final_setItem_recs] using hst

/-- A cell write through a settled table changes only memory, whether it returns or raises. -/
theorem exec_cellWrite {r : Nat} {op : Op} {st : Store} (hop : op.IsCellWriteOf r) (hs : Settled st r) :
    SameTables st (op.exec st) := by
  have hrefl : SameTables st st := ⟨rfl, rfl⟩
  cases op with
  | setCell r' key row x =>
    cases hop
    exact stays_bind (stays_field hs key) (fun _ _ _ _ _ => stays_setItem_tables _ _ _) st hrefl
  | setRecordCell v key x =>
    cases v with
    | mk array row start «end» =>
      cases hop
      exact stays_bind (stays_getRec _) (fun _ _ _ _ _ => stays_bind (stays_liftExcept _)
        fun _ _ _ _ _ => stays_bind (stays_field hs _) fun _ _ _ _ _ => stays_setItem_tables _ _ _) st hrefl
  | scaleBack r' => cases hop

/-- A run of cell writes through settled tables `t` and `u` changes only memory. -/
theorem runOps_cellWrites {t u : Nat} :
    ∀ (ops : List Op) (st : Store), (∀ op ∈ ops, op.IsCellWriteOf t ∨ op.IsCellWriteOf u) →
      Settled st t → Settled st u → SameTables st (runOps ops st)
  | [], _, _, _, _ => ⟨rfl, rfl⟩
  | op :: ops, st, hops, ht, hu => by
    have h1 : SameTables st (op.exec st) :=
      (hops op (List.mem_cons_self op ops)).elim (fun h => exec_cellWrite h ht) fun h => exec_cellWrite h hu
    have h2 := runOps_cellWrites ops (op.exec st) (fun o ho => hops o (List.mem_cons_of_mem op ho))
      (ht.of_sameTables h1) (hu.of_sameTables h1)
    exact ⟨h2.1.trans h1.1, h2.2.trans h1.2⟩

end PyFits.FieldCache
