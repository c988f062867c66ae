import PyFits.HeapLayout
import PyFits.ScaleBackOblivious
import Mathlib.Algebra.BigOperators.Ring.List

/-!
# Reading back what `_scale_back` writes

`_scale_back` packs the rows of bits of an `X` column with `_wrapx`, and stores a logical column
as the bytes `T` and `F` (`numpy.choose`); `field`, on an empty slot, unpacks an `X` field with
`_unwrapx` and compares a logical field with `T`. So a table saved by `_scale_back` reads back
the values its cache held: every row of bits as it was, cut or padded with `False` to the
column's width, and every boolean as it was.

The raw field of a column after the whole call is what the column's own turn of the loop wrote,
since every other turn writes only its own column (`loop_frame`). The two round trips are then a
fact about one turn and one decoding each.

Every turn computes what it writes from the cache alone, and `_scale_back` sets `_heapsize` to
zero before it reads it; so once it has returned on a binary table, calling it again returns and
leaves the store as it is (`scaleBack_idempotent`).
-/

namespace PyFits.Reload

open ScaleBackFrame HeapLayout

/-! ## Packed bits -/

/-- Bit `m`, most significant first, of the number whose `n` bits are `c 0, …, c (n - 1)`. -/
theorem bits_sum_bit (c : Nat → Bool) : ∀ {n m : Nat}, m < n →
    ((List.range n).map fun k => if c k then 2 ^ (n - 1 - k) else 0).sum / 2 ^ (n - 1 - m) % 2 =
      if c m then 1 else 0
  | 0, _, h => absurd h (Nat.not_lt_zero _)
  | n + 1, m, h => by
    have hsum : ((List.range (n + 1)).map fun k => if c k then 2 ^ (n + 1 - 1 - k) else 0).sum =
        2 * ((List.range n).map fun k => if c k then 2 ^ (n - 1 - k) else 0).sum + (if c n then 1 else 0) := by
      rw [List.range_succ, List.map_append, List.sum_append, ← List.sum_map_mul_left]
      congr 1
      · refine congrArg List.sum (List.map_congr_left fun k hk => ?_)
        have hk := List.mem_range.mp hk
        split
        · rw [← pow_succ']
          congr 1
          omega
        · rfl
      · simp
    rw [hsum]
    rcases Nat.lt_succ_iff_lt_or_eq.mp h with hm | rfl
    · have hb : (if c n then 1 else 0) / 2 = 0 := by split <;> rfl
      rw [show n + 1 - 1 - m = (n - 1 - m) + 1 by omega, pow_succ', ← Nat.div_div_eq_div_mul,
        Nat.mul_add_div (by decide), hb, Nat.add_zero]
      exact bits_sum_bit c hm
    · rw [Nat.add_sub_cancel, Nat.sub_self, pow_zero, Nat.div_one]
      split <;> omega

/-- `_unwrapx` undoes `_wrapx`: the `nx` bits unpacked from the packed bytes of a row are the
row's first `nx` bits, padded with `False`. -/
theorem unwrapx_wrapx (bits : List Bool) (nx : Nat) :
    unwrapx (wrapx bits nx) nx = (List.range nx).map fun j => bits.getD j false := by
  unfold unwrapx wrapx
  refine List.map_congr_left fun j hj => ?_
  have hj := List.mem_range.mp hj
  have hi : j / 8 < (nx - 1) / 8 + 1 := by omega
  have hbit := @bits_sum_bit (fun k => decide (8 * (j / 8) + k < nx ∧ bits.getD (8 * (j / 8) + k) false = true))
    8 (j % 8) (Nat.mod_lt j (by decide))
  simp only [decide_eq_true_eq, Nat.div_add_mod, show 8 - 1 = 7 from rfl] at hbit
  rw [List.getD_eq_getElem?_getD, List.getElem?_map, List.getElem?_range hi, Option.map_some', Option.getD_some, hbit]
  cases bits.getD j false <;> simp [hj]

/-! ## Columns mapped element by element -/

/-- Encoding a column element by element and decoding the result element by element relates
each element to what it decodes to, when each element does. -/
theorem mapM_then_mapM {α β γ : Type} {R : α → γ → Prop} {f : α → Except PyError β}
    {g : β → Except PyError γ} (hfg : ∀ x y, f x = .ok y → ∃ z, g y = .ok z ∧ R x z)
    {xs : List α} {ys : List β} (h : xs.mapM f = .ok ys) :
    ∃ zs, ys.mapM g = .ok zs ∧ List.Forall₂ R xs zs := by
  suffices key : ∀ {xs ys}, List.Forall₂ (fun x y => f x = .ok y) xs ys →
      ∃ zs, List.Forall₂ (fun y z => g y = .ok z) ys zs ∧ List.Forall₂ R xs zs by
    obtain ⟨zs, h1, h2⟩ := key (except_forall₂_of_mapM h)
    exact ⟨zs, except_mapM_of_forall₂ h1, h2⟩
  intro xs ys hf
  induction hf with
  | nil => exact ⟨[], .nil, .nil⟩
  | cons hxy _ ih =>
    obtain ⟨z, hz, hr⟩ := hfg _ _ hxy
    obtain ⟨zs, h1, h2⟩ := ih
    exact ⟨z :: zs, .cons hz h1, .cons hr h2⟩

/-- `v[:] = xs` with one element per row of a view with a nonzero stride leaves `xs` in it. -/
theorem setAll_read {v : View} {xs : List Elem} {s s' : Store} (hs : v.stride ≠ 0) (hl : xs.length = v.len)
    (h : v.setAll xs s = .ok () s') : s'.read v = xs := by
  simp only [View.setAll, broadcast_of_length hl, liftExcept_ok_bind] at h
  rw [← (EStateM.Result.ok.inj h).2]
  exact Store.read_writeList s v hs xs hl.symm

/-! ## The loop of `_scale_back` -/

/-- When `_scale_back` returns, its loop over the columns ran to the end from a store with the
memory and the cache of the start, the layout step's entry appended to `starts` and `_heapsize`
reset. -/
theorem scaleBack_ok_loop {t : Nat} {st st' : Store} (h : FitsRec.scaleBack t st = .ok () st') :
    ∃ loc widths st2, st2.mem = st.mem ∧ st2.conv = st.conv ∧
      (∃ e, st2.recs t = { withStarts (st.recs t) e with heapsize := 0 }) ∧
      (List.range (st.recs t).nfields).forM (scaleBackColumn t loc widths) st2 = .ok () st' := by
  rw [FitsRec.scaleBack, bind_ok (getRec_apply st t)] at h
  obtain ⟨e, -, -, he⟩ := layout_appends t st
  split at h
  all_goals
    first | rw [if_pos ‹_›] at he | rw [if_neg ‹_›] at he
    obtain ⟨⟨loc, widths⟩, st1, hl, h⟩ := bind_ok_inv h
    rw [final_ok hl] at he
    subst he
    dsimp only at h
    rw [bind_ok (getRec_apply _ t), bind_ok (setRec_apply _ t _),
      show ((appendStarts st t e).recs t).nfields = (st.recs t).nfields by rw [appendStarts_self]; rfl] at h
    refine ⟨loc, widths, _, ?_, ?_, ⟨e, ?_⟩, h⟩ <;> simp

/-- The raw fields of the columns of table `t`, which the loop of `_scale_back` may write. -/
def RawFields (st : Store) (t : Nat) : Base → Int → Prop := fun b _ => ∃ j, b = .field (st.recs t).buf j

/-- The loop of `_scale_back` turn after turn, with an invariant `Q` of the number of turns done
that every turn keeps: once the turn of column `c` is done, the raw field of column `c` holds what
that turn wrote, since every other turn writes only its own column's raw field. -/
theorem loop_frame {t c n : Nat} {loc : List Int} {widths : List (Option Nat)} {st2 st' : Store}
    {P : List Elem → Prop} {Q : Nat → Store → Prop} (hQ0 : Q 0 st2)
    (hQ : ∀ i s s', ColumnsFrame t (RawFields st2 t) st2 s → Q i s →
      scaleBackColumn t loc widths i s = .ok () s' → Q (i + 1) s')
    (hturn : ∀ s s', ColumnsFrame t (RawFields st2 t) st2 s → Q c s →
      scaleBackColumn t loc widths c s = .ok () s' → P (s'.read ((st2.recs t).rawField c)))
    (hl : (List.range n).forM (scaleBackColumn t loc widths) st2 = .ok () st') :
    Q n st' ∧ (c < n → P (st'.read ((st2.recs t).rawField c))) := by
  refine (@forM_range_ok (fun i s => ColumnsFrame t (RawFields st2 t) st2 s ∧ Q i s ∧
      (c < i → P (s.read ((st2.recs t).rawField c)))) _ n (fun i _ s s' hJ hi => ?_)
      st2 st' ⟨ColumnsFrame.refl t _ st2, hQ0, fun h0 => absurd h0 (Nat.not_lt_zero c)⟩ hl).2
  have hfin := final_ok hi
  have hall := stays_scaleBackColumn loc widths i (fun _ _ _ _ _ => ⟨i, rfl⟩) s hJ.1
  have hown : ColumnsFrame t (fun b _ => b = .field (s.recs t).buf i) s (final (scaleBackColumn t loc widths i) s) :=
    stays_scaleBackColumn loc widths i (fun _ _ _ _ _ => rfl) s (ColumnsFrame.refl t _ s)
  rw [hfin] at hall hown
  refine ⟨hall, hQ i s s' hJ.1 hJ.2.1 hi, fun hci => ?_⟩
  rcases Nat.lt_succ_iff_lt_or_eq.mp hci with hci | rfl
  · have hne : c ≠ i := by omega
    rw [hown.read_eq fun j _ hj => hne (Base.field.inj (hj.trans (by rw [hJ.1.buf]))).2]
    exact hJ.2.2 hci
  · exact hturn s s' hJ.1 hJ.2.1 hi

/-- After the loop of `_scale_back` returns, the raw field of column `c` holds what the turn of
column `c` wrote. -/
theorem loop_raw {t c n : Nat} {loc : List Int} {widths : List (Option Nat)} {st2 st' : Store}
    {P : List Elem → Prop} (hc : c < n)
    (hturn : ∀ s s', ColumnsFrame t (RawFields st2 t) st2 s → scaleBackColumn t loc widths c s = .ok () s' →
      P (s'.read ((st2.recs t).rawField c)))
    (hl : (List.range n).forM (scaleBackColumn t loc widths) st2 = .ok () st') :
    P (st'.read ((st2.recs t).rawField c)) :=
  (@loop_frame t c n loc widths st2 st' P (fun _ _ => True) trivial (fun _ _ _ _ _ _ => trivial)
    (fun s s' hs _ => hturn s s' hs) hl).2 hc

/-- During the loop, the slot of a column holds the array it held when the loop started, and the
array holds what it held then: the loop writes only raw fields. -/
theorem loop_cache {t c : Nat} {st2 s : Store} {cv : View} (hs : ColumnsFrame t (RawFields st2 t) st2 s)
    (hcv : st2.conv (st2.recs t).convert c = some cv) (harr : ∃ id, cv.base = .arr id) :
    s.conv (s.recs t).convert c = some cv ∧ s.read cv = st2.read cv := by
  refine ⟨by rw [hs.conv, hs.convert, hcv], hs.read_eq fun _ _ ⟨_, hb⟩ => ?_⟩
  obtain ⟨id, hid⟩ := harr
  rw [hid] at hb
  cases hb

/-- A column that `f` maps element by element, each element as a row of bits, is a column of
rows of bits. -/
theorem mapM_flags {f : Elem → Except PyError Elem} {g : List Bool → Elem}
    (hf : ∀ e y, f e = .ok y → ∃ bs, e = .flags bs ∧ y = g bs) {xs ys : List Elem} (h : xs.mapM f = .ok ys) :
    ∃ bits : List (List Bool), xs = bits.map .flags ∧ ys = bits.map g := by
  suffices key : ∀ {xs ys}, List.Forall₂ (fun x y => f x = .ok y) xs ys →
      ∃ bits : List (List Bool), xs = bits.map .flags ∧ ys = bits.map g from key (except_forall₂_of_mapM h)
  intro xs ys hF
  induction hF with
  | nil => exact ⟨[], rfl, rfl⟩
  | cons hxy _ ih =>
    obtain ⟨bs, rfl, rfl⟩ := hf _ _ hxy
    obtain ⟨bits, rfl, rfl⟩ := ih
    exact ⟨bs :: bits, rfl, rfl⟩

/-! ## `X` columns -/

/-- The turn of an `X` column writes, into the column's raw field, the packed bytes of every row
of the cache, each of which is a row of bits. -/
theorem turn_bits {t c nx : Nat} {loc : List Int} {widths : List (Option Nat)} {st2 s s' : Store} {cv : View}
    (hs : ColumnsFrame t (RawFields st2 t) st2 s) (hrf : ((st2.recs t).coldefs.col c).recformat = .x nx)
    (hcv : st2.conv (st2.recs t).convert c = some cv) (hlen : cv.len = (st2.recs t).len)
    (harr : ∃ id, cv.base = .arr id) (hstride : (st2.recs t).stride ≠ 0)
    (h : scaleBackColumn t loc widths c s = .ok () s') :
    ∃ bits : List (List Bool), st2.read cv = bits.map .flags ∧
      s'.read ((st2.recs t).rawField c) = bits.map fun bs => .nums ((wrapx bs nx).map fun (b : Nat) => .int b) := by
  obtain ⟨hconv, hread⟩ := loop_cache hs hcv harr
  simp only [scaleBackColumn, getRec_bind, getConv_bind, hconv, readView_bind, hread, hs.coldefs, hrf,
    hs.rawField, wrapxColumn] at h
  obtain ⟨_, s1, -, h⟩ := bind_ok_inv h
  obtain ⟨cells, s2, hcells, h⟩ := bind_ok_inv h
  obtain ⟨hm, rfl⟩ := liftExcept_ok_inv hcells
  obtain ⟨bits, hbits, rfl⟩ := mapM_flags (fun e y he => by
    cases e <;> first | exact ⟨_, rfl, (Except.ok.inj he).symm⟩ | cases he) hm
  refine ⟨bits, hbits, setAll_read (by rwa [FitsRec.rawField]) ?_ h⟩
  rw [List.length_map, FitsRec.rawField_len, ← hlen, ← List.length_map bits Elem.flags, ← hbits]
  simp [Store.read]

/-- On an empty slot, `field` of an `X` column unpacks the bits of every cell of its raw field. -/
theorem convertField_x {r : FitsRec} {c nx : Nat} (hrf : (r.coldefs.col c).recformat = .x nx) (st : Store) :
    convertField r c st = (some <$> liftExcept (decodeX nx (st.read (r.rawField c)))) st := by
  simp only [convertField, readView_bind, hrf]

/-- Unpacking rows packed by `_wrapx` gives back their first `nx` bits. -/
theorem decodeX_wrapx (nx : Nat) (bits : List (List Bool)) :
    decodeX nx (bits.map fun bs => .nums ((wrapx bs nx).map fun (b : Nat) => .int b)) =
      .ok (bits.map fun bs => .flags ((List.range nx).map fun j => bs.getD j false)) := by
  refine except_mapM_of_forall₂ ?_
  simp only [List.forall₂_map_left_iff, List.forall₂_map_right_iff, List.forall₂_same]
  intro bs _
  simp [List.map_map, Function.comp_def, unwrapx_wrapx]

/-- Saving a table with `_scale_back` and reading an `X` column back through `field` with an empty
slot gives back every row of bits the column's cache held, cut or padded with `False` to the
column's `nx` bits. When `_scale_back` returns, every cached row is a row of bits; the column's
raw field then holds the rows packed by `_wrapx`, and `_unwrapx` unpacks them. -/
theorem reload_bits {t c nx : Nat} {st st' : Store} {cv : View} (hc : c < (st.recs t).nfields)
    (hrf : ((st.recs t).coldefs.col c).recformat = .x nx)
    (hcv : st.conv (st.recs t).convert c = some cv) (hlen : cv.len = (st.recs t).len)
    (harr : ∃ id, cv.base = .arr id) (hs : (st.recs t).stride ≠ 0)
    (h : FitsRec.scaleBack t st = .ok () st') :
    ∃ ys, convertField (st'.recs t) c st' = .ok (some ys) st' ∧
      List.Forall₂ (fun x y => ∃ bs, x = .flags bs ∧ y = .flags ((List.range nx).map fun j => bs.getD j false))
        (st.read cv) ys := by
  obtain ⟨loc, widths, st2, hmem, hconv, ⟨e, hrec⟩, hl⟩ := scaleBack_ok_loop h
  obtain ⟨bits, hbits, hraw⟩ := @loop_raw t c _ loc widths st2 st'
    (fun xs => ∃ bits : List (List Bool), st2.read cv = bits.map .flags ∧
      xs = bits.map fun bs => .nums ((wrapx bs nx).map fun (b : Nat) => .int b)) hc
    (fun s s' hs' hturn => turn_bits hs' (by rw [hrec]; exact hrf) (by rw [hconv, hrec]; exact hcv)
      (by rw [hrec]; exact hlen) harr (by rw [hrec]; exact hs) hturn) hl
  obtain ⟨n, e', -, -, hrec', -⟩ := (final_ok h ▸ scaleBack_effect t st).table
  have hraw' : st'.read ((st'.recs t).rawField c) = bits.map fun bs => .nums ((wrapx bs nx).map fun (b : Nat) => .int b) := by
    rw [← hraw, hrec, hrec']
    rfl
  refine ⟨bits.map fun bs => .flags ((List.range nx).map fun j => bs.getD j false), ?_, ?_⟩
  · rw [convertField_x (by rw [hrec']; exact hrf), hraw', decodeX_wrapx]
    rfl
  · rw [← show st2.read cv = st.read cv by simp only [Store.read, hmem], hbits]
    simp only [List.forall₂_map_left_iff, List.forall₂_map_right_iff, List.forall₂_same]
    exact fun bs _ => ⟨bs, rfl, rfl⟩

/-- A binary table of two rows with a column of three bits, `101` and `010`, and a logical
column, `T` and `F`. -/
def bitsAndFlags : Store :=
  Store.ofTable "BinTableHDU" [⟨"b", "3X", .x 3, none, none, ""⟩, ⟨"f", "L", .plain "i1", none, none, ""⟩] []
    [[.nums [.int 160], .num (.int 84)], [.nums [.int 64], .num (.int 70)]] []

/-- `bitsAndFlags` after a client has written the bits `011` into row 0 of the bit column, and the
integer `1` into row 1 of the logical column, through the arrays `field` caches: numpy stores the
integer as `True`. -/
def edited : Store :=
  final (do
    let v ← FitsRec.field 0 (.pos 0)
    v.setItem 0 (.flags [false, true, true])
    let w ← FitsRec.field 0 (.pos 1)
    w.setItem 1 (.num (.int 1))) bitsAndFlags

/-- `edited` once `_scale_back` has run. -/
def saved : Store := final (FitsRec.scaleBack 0) edited

/-- The bits written into row 0 read back as they were, and row 1 as it was. -/
theorem edited_reload_bits :
    edited.conv (edited.recs 0).convert 0 = some ⟨.arr 1, 0, 1, 2, .bools 3⟩ ∧ FitsRec.scaleBack 0 edited = .ok () saved ∧
    ∃ ys, convertField (saved.recs 0) 0 saved = .ok (some ys) saved ∧
      List.Forall₂ (fun x y => ∃ bs, x = .flags bs ∧ y = .flags ((List.range 3).map fun j => bs.getD j false))
        (edited.read ⟨.arr 1, 0, 1, 2, .bools 3⟩) ys :=
  have hcv : edited.conv (edited.recs 0).convert 0 = some ⟨.arr 1, 0, 1, 2, .bools 3⟩ := by decide
  have h : FitsRec.scaleBack 0 edited = .ok () saved := ok_final_of_returned (by decide)
  ⟨hcv, h, reload_bits (by decide) (by decide) hcv (by decide) ⟨1, rfl⟩ (by decide) h⟩

/-! ## Logical columns -/

/-- The turn of a logical column stores, into the column's raw field, the byte `T` or `F` that
`numpy.choose` gives every row of the cache. -/
theorem turn_logical {t c : Nat} {spec : String} {sf : ScaleFactors} {loc : List Int}
    {widths : List (Option Nat)} {st2 s s' : Store} {cv : View}
    (hs : ColumnsFrame t (RawFields st2 t) st2 s) (hrf : ((st2.recs t).coldefs.col c).recformat = .plain spec)
    (hsf : getScaleFactors (st2.recs t).coldefs c = .ok sf) (hb : sf.bool = true) (hstr : sf.str = false)
    (hcv : st2.conv (st2.recs t).convert c = some cv) (hlen : cv.len = (st2.recs t).len)
    (harr : ∃ id, cv.base = .arr id) (hstride : (st2.recs t).stride ≠ 0)
    (h : scaleBackColumn t loc widths c s = .ok () s') :
    chooseColumn (st2.read cv) = .ok (s'.read ((st2.recs t).rawField c)) := by
  obtain ⟨hconv, hread⟩ := loop_cache hs hcv harr
  have hnum : sf.number = false := by rw [(getScaleFactors_flags hsf).1, hb]; rfl
  simp only [scaleBackColumn, getRec_bind, getConv_bind, hconv, readView_bind, hread, hs.coldefs, hrf,
    hs.rawField, hsf, liftExcept_ok_bind, pure_bind, scaleBackValues, hnum, hstr, hb, Bool.or_self,
    Bool.false_eq_true, if_false, if_true] at h
  obtain ⟨ys, s1, hys, hset⟩ := bind_ok_inv h
  obtain ⟨hm, rfl⟩ := liftExcept_ok_inv hys
  rw [hm, setAll_read (by rwa [FitsRec.rawField]) ?_ hset]
  rw [except_mapM_length hm, FitsRec.rawField_len, ← hlen]
  simp [Store.read]

/-- On an empty slot, `field` of a logical column compares every cell of its raw field with `T`. -/
theorem convertField_logical {r : FitsRec} {c : Nat} {spec : String} {sf : ScaleFactors}
    (hrf : (r.coldefs.col c).recformat = .plain spec) (hsf : getScaleFactors r.coldefs c = .ok sf)
    (hb : sf.bool = true) (hstr : sf.str = false) (st : Store) :
    convertField r c st = (some <$> liftExcept (equalT (st.read (r.rawField c)))) st := by
  have hnum : sf.number = false := by rw [(getScaleFactors_flags hsf).1, hb]; rfl
  simp only [convertField, readView_bind, hrf, hsf, liftExcept_ok_bind, hstr, Bool.false_eq_true, if_false,
    getAsciiTNull_bind, (getScaleFactors_flags hsf).2 hb, pure_bind, hnum, Bool.false_and, hb, if_true]

/-- `y` is what a fresh `field` reads from the byte `_scale_back` stores for the logical value
`x`: a bool or a row of bools as it was, and the integers `0` and `1` as `False` and `True`. -/
inductive ReadsBack : Elem → Elem → Prop
  | flag (b : Bool) : ReadsBack (.flag b) (.flag b)
  | flags (bs : List Bool) : ReadsBack (.flags bs) (.flags bs)
  | zero : ReadsBack (.num (.int 0)) (.flag false)
  | one : ReadsBack (.num (.int 1)) (.flag true)

/-- Comparing with `T` the byte `numpy.choose` stores for a logical value reads the value back. -/
theorem chooseFT_isTrueByte {x y : Elem} (h : x.chooseFT = some y) : ∃ z, y.isTrueByte = some z ∧ ReadsBack x z := by
  unfold Elem.chooseFT at h
  split at h <;> simp only [Option.some.injEq, reduceCtorEq] at h <;> subst h
  · next b => exact ⟨_, rfl, by cases b <;> exact .flag _⟩
  · next bs =>
    refine ⟨_, rfl, ?_⟩
    rw [List.map_map]
    convert ReadsBack.flags bs
    conv_rhs => rw [← List.map_id bs]
    exact List.map_congr_left fun b _ => by cases b <;> rfl
  · exact ⟨_, rfl, .zero⟩
  · exact ⟨_, rfl, .one⟩

/-- Saving a table with `_scale_back` and reading a logical column back through `field` with an
empty slot gives back every value the column's cache held. When `_scale_back` returns, every
cached value is a bool, a row of bools, `0` or `1`; the column's raw field then holds the bytes
`T` and `F`, and comparing them with `T` reads the values back. -/
theorem reload_logical {t c : Nat} {spec : String} {sf : ScaleFactors} {st st' : Store} {cv : View}
    (hc : c < (st.recs t).nfields) (hrf : ((st.recs t).coldefs.col c).recformat = .plain spec)
    (hsf : getScaleFactors (st.recs t).coldefs c = .ok sf) (hb : sf.bool = true) (hstr : sf.str = false)
    (hcv : st.conv (st.recs t).convert c = some cv) (hlen : cv.len = (st.recs t).len)
    (harr : ∃ id, cv.base = .arr id) (hs : (st.recs t).stride ≠ 0)
    (h : FitsRec.scaleBack t st = .ok () st') :
    ∃ ys, convertField (st'.recs t) c st' = .ok (some ys) st' ∧ List.Forall₂ ReadsBack (st.read cv) ys := by
  obtain ⟨loc, widths, st2, hmem, hconv, ⟨e, hrec⟩, hl⟩ := scaleBack_ok_loop h
  have hread : st2.read cv = st.read cv := by simp only [Store.read, hmem]
  have hraw := @loop_raw t c _ loc widths st2 st' (fun xs => chooseColumn (st2.read cv) = .ok xs) hc
    (fun s s' hs' hturn => turn_logical hs' (by rw [hrec]; exact hrf) (by rw [hrec]; exact hsf) hb hstr
      (by rw [hconv, hrec]; exact hcv) (by rw [hrec]; exact hlen) harr (by rw [hrec]; exact hs) hturn) hl
  obtain ⟨n, e', -, -, hrec', -⟩ := (final_ok h ▸ scaleBack_effect t st).table
  have hraw' : st'.read ((st'.recs t).rawField c) = st'.read ((st2.recs t).rawField c) := by
    rw [hrec, hrec']
    rfl
  rw [hread] at hraw
  obtain ⟨ys, hys, hrel⟩ := @mapM_then_mapM _ _ _ ReadsBack
    (fun e => e.chooseFT.elim (.error (.valueError "invalid entry in choice array")) .ok)
    (fun e => e.isTrueByte.elim (.error (.typeError "not a number")) .ok) (fun x y hxy => by
      cases hx : x.chooseFT with
      | none => simp only [hx, Option.elim, reduceCtorEq] at hxy
      | some y' =>
        obtain ⟨z, hz, hr⟩ := chooseFT_isTrueByte hx
        obtain rfl : y' = y := by simpa [hx] using hxy
        exact ⟨z, by simp [hz], hr⟩) _ _ hraw
  refine ⟨ys, ?_, hrel⟩
  rw [convertField_logical (by rw [hrec']; exact hrf) (by rw [hrec']; exact hsf) hb hstr, hraw']
  show (some <$> liftExcept (equalT _)) st' = _
  rw [show equalT _ = .ok ys from hys]
  rfl

/-- The logical column reads back `True` in row 0, and `True` in row 1, where the integer `1` was
written. -/
theorem edited_reload_logical :
    edited.conv (edited.recs 0).convert 1 = some ⟨.arr 2, 0, 1, 2, .bool⟩ ∧ FitsRec.scaleBack 0 edited = .ok () saved ∧
    ∃ ys, convertField (saved.recs 0) 1 saved = .ok (some ys) saved ∧
      List.Forall₂ ReadsBack (edited.read ⟨.arr 2, 0, 1, 2, .bool⟩) ys :=
  have hcv : edited.conv (edited.recs 0).convert 1 = some ⟨.arr 2, 0, 1, 2, .bool⟩ := by decide
  have h : FitsRec.scaleBack 0 edited = .ok () saved := ok_final_of_returned (by decide)
  ⟨hcv, h, @reload_logical 0 1 "i1" ⟨false, true, false, false, false, fltOne, fltZero⟩ _ _ _ (by decide)
    (by decide) rfl rfl rfl hcv (by decide) ⟨2, rfl⟩ (by decide) h⟩

/-! ## Saving twice -/

section Twice

open ScaleBackOblivious FieldCache

variable {t : Nat} {st st' : Store}

theorem setAt_setAt {α β : Type} [DecidableEq α] (f : α → β) (a : α) (v w : β) :
    setAt (setAt f a v) a w = setAt f a w := by
  funext x
  by_cases h : x = a <;> simp [setAt, h]

/-- `_scale_back` of a binary table does not read `_heapsize`: it sets it to zero first. -/
theorem scaleBack_heapsize (ha : (st.recs t).coldefs.isAscii = false) (n : Int) :
    FitsRec.scaleBack t { st with recs := setAt st.recs t { st.recs t with heapsize := n } } =
      FitsRec.scaleBack t st := by
  have ha' : ({ st.recs t with heapsize := n } : FitsRec).coldefs.isAscii = false := ha
  simp only [FitsRec.scaleBack, getRec_bind, setAt_same, ha, ha', if_false, Bool.false_eq_true, pure_bind,
    setRec_bind, setAt_setAt]
  rfl

/-- A call of `_scale_back` that leaves the memory and its table as they were leaves the whole
store as it was. -/
theorem eq_of_scaleBackEffect (h : ScaleBackEffect t st st') (ha : (st.recs t).coldefs.isAscii = false)
    (hm : st'.mem = st.mem) (hr : st'.recs t = st.recs t) : st' = st := by
  obtain ⟨n, e, -, he, -, hothers⟩ := h.table
  obtain rfl := he ha
  have hrecs : st'.recs = st.recs := funext fun u => by
    by_cases hu : u = t
    · rw [hu, hr]
    · rw [hothers u hu, if_neg fun h => h.1 rfl]
  cases st
  cases st'
  simp only [Store.mk.injEq] at *
  exact ⟨hm, h.conv, hrecs, h.files, h.next, h.tnull⟩

/-- Once `_scale_back` of a binary table with an aligned cache has returned, calling it again
returns and changes nothing. The second call starts on a store that differs from the first's
only in rows the first rewrote and in `_heapsize`, which it does not read, so it writes what the
first wrote and leaves the memory and the table as they are. -/
theorem scaleBack_idempotent (hal : CacheAligned st t) (ha : (st.recs t).coldefs.isAscii = false)
    (h : FitsRec.scaleBack t st = .ok () st') : FitsRec.scaleBack t st' = .ok () st' := by
  have hE := final_ok h ▸ scaleBack_effect t st
  obtain ⟨n, e, -, he, hrec, -⟩ := hE.table
  rw [he ha, withStarts, List.append_nil] at hrec
  obtain ⟨e', he', hframe⟩ := scaleBack_rewrites t st
  rw [final_ok h, he' ha, appendStarts_nil] at hframe
  have hA : Agree t (Rewrites st t) st { st' with recs := setAt st'.recs t (st.recs t) } :=
    ⟨hE.conv.symm, (setAt_same _ _ _).symm, hE.tnull.symm, fun b p hne => hframe.mem b p (Ne.symm hne)⟩
  have hcache : ∀ k cv, st.conv (st.recs t).convert k = some cv →
      cv.len = (st.recs t).len ∧ ∀ j < cv.len, ¬ Rewrites st t cv.base (cv.pos j) := fun k cv hc => by
    obtain ⟨hlen, id, hid⟩ := hal k cv hc
    refine ⟨hlen, fun j _ ⟨_, _, _, _, hb, _⟩ => ?_⟩
    rw [hid] at hb
    cases hb
  obtain ⟨Y', hY, hmem, hrecs⟩ := scaleBack_agree (fun _ _ hd => hd) hcache hA h
  have hY0 : setAt st'.recs t (st.recs t) = setAt st'.recs t { st'.recs t with heapsize := (st.recs t).heapsize } := by
    rw [hrec]
  have ha' : (st'.recs t).coldefs.isAscii = false := by rw [hrec]; exact ha
  rw [hY0, @scaleBack_heapsize t st' ha'] at hY
  have hE' : ScaleBackEffect t st' Y' := final_ok hY ▸ scaleBack_effect t st'
  rwa [eq_of_scaleBackEffect hE' ha' hmem hrecs] at hY

/-- `edited` has cached both its columns, in arrays of their own. -/
theorem edited_conv (k : Nat) : edited.conv (edited.recs 0).convert k =
    if k = 1 then some ⟨.arr 2, 0, 1, 2, .bool⟩ else if k = 0 then some ⟨.arr 1, 0, 1, 2, .bools 3⟩ else none := by
  rcases k with _ | _ | k <;> rfl

/-- Saving `edited` a second time changes nothing. -/
theorem edited_saved_twice :
    CacheAligned edited 0 ∧ FitsRec.scaleBack 0 edited = .ok () saved ∧ FitsRec.scaleBack 0 saved = .ok () saved :=
  have hal : CacheAligned edited 0 := fun k cv hc => by
    rw [edited_conv] at hc
    split_ifs at hc <;> cases hc <;> exact ⟨by decide, _, rfl⟩
  have h : FitsRec.scaleBack 0 edited = .ok () saved := ok_final_of_returned (by decide)
  ⟨hal, h, scaleBack_idempotent hal (by decide) h⟩

end Twice

end PyFits.Reload
