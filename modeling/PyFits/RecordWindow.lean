import PyFits.Table

/-!
# The windows of record views

Every `FITS_record` of a table with `c` columns has `0 ≤ end ≤ c`: the constructor clamps
`endColumn`. It does not clamp `startColumn` from below and never compares it with `end`,
so a view built with a negative `startColumn`, or with one past its `end`, has a window
outside `[0, c]` or an inverted one, and then a negative `len`. Views returned by `t[i]` are
well formed, `start = 0` and `end = c`, but `t[i]` only rejects `i ≥ len(t)`, so their row
can lie before the table.

A read or write through a view resolves its key to a column first: a name must be a column of
the table whose index lies in the window, and a position `p` is taken as column `start + p` and
checked against `end` only, so a negative position reaches the columns before the window.
`str` reads the window's columns in order, as the positions `0, …, len - 1` do. `v[i:j]` is a
view over the absolute columns `[i, j)` of the table, whatever `v`'s own window is.
-/

namespace PyFits.RecordWindow

open FitsRecord

/-- The record views of table `t` with `c` columns: built by the constructor (which is what
`t[i]` does), or by re-windowing one of them. -/
inductive Reachable (t c : Nat) : FitsRecord → Prop
  | init (row startColumn endColumn : Int) : Reachable t c (init t c row startColumn endColumn)
  | getSlice (v : FitsRecord) (i j : Int) : Reachable t c v → Reachable t c (v.getSlice c i j)

theorem init_end_bounds (t c : Nat) (row sc ec : Int) :
    0 ≤ (init t c row sc ec).end ∧ (init t c row sc ec).end ≤ c := by
  simp only [init]
  split <;> omega

theorem len_neg_iff (v : FitsRecord) (c : Nat) : v.len c < 0 ↔ v.end < v.start := by
  simp only [FitsRecord.len, min_lt_iff]
  omega

theorem init_window_iff (t c : Nat) (row sc ec : Int) :
    (0 ≤ (init t c row sc ec).start ∧ (init t c row sc ec).start ≤ (init t c row sc ec).end ∧
      (init t c row sc ec).end ≤ c) ↔ 0 ≤ sc ∧ sc ≤ (init t c row sc ec).end := by
  have hend := init_end_bounds t c row sc ec
  simp only [init] at hend ⊢
  split <;> omega

theorem reachable_array_end {t c : Nat} {v : FitsRecord} (h : Reachable t c v) :
    v.array = t ∧ 0 ≤ v.end ∧ v.end ≤ c := by
  induction h with
  | init row sc ec => exact ⟨rfl, init_end_bounds t c row sc ec⟩
  | getSlice v i j _ ih =>
    have hb := init_end_bounds v.array c v.row i j
    simp only [getSlice, ih.1] at hb ⊢
    exact ⟨rfl, hb⟩

theorem getItem_int (st : Store) (t : Nat) (i : Int) :
    FitsRec.getItem t (.int i) st =
      if i ≥ (st.recs t).len then .error (.indexError "Index out of bounds") st
      else .ok (.record (init t (st.recs t).nfields i 0 0)) st := by
  simp only [FitsRec.getItem, getRec, bind, EStateM.bind]
  split <;> rfl

/-- Every view reachable from a table refers to it and has `0 ≤ end ≤ c`, and its length is
negative exactly when its window is inverted; `t[i]` returns a view with `start = 0`,
`end = c` and row `i` for every `i < len(t)`; a view built by the constructor has
`0 ≤ start ≤ end ≤ c` exactly when `0 ≤ startColumn ≤ end`. -/
theorem record_view_bounds (st : Store) (t : Nat) :
    (∀ v, Reachable t (st.recs t).nfields v →
      v.array = t ∧ 0 ≤ v.end ∧ v.end ≤ (st.recs t).nfields ∧
        (v.len (st.recs t).nfields < 0 ↔ v.end < v.start)) ∧
    (∀ i : Int, i < (st.recs t).len →
      FitsRec.getItem t (.int i) st = .ok (.record ⟨t, i, 0, (st.recs t).nfields⟩) st) ∧
    (∀ row sc ec : Int,
      (0 ≤ (init t (st.recs t).nfields row sc ec).start ∧
        (init t (st.recs t).nfields row sc ec).start ≤ (init t (st.recs t).nfields row sc ec).end ∧
        (init t (st.recs t).nfields row sc ec).end ≤ (st.recs t).nfields) ↔
      0 ≤ sc ∧ sc ≤ (init t (st.recs t).nfields row sc ec).end) := by
  refine ⟨fun v hv => ?_, fun i hi => ?_, init_window_iff t _⟩
  · obtain ⟨harr, hlo, hhi⟩ := reachable_array_end hv
    exact ⟨harr, hlo, hhi, len_neg_iff v _⟩
  · rw [getItem_int, if_neg (by omega)]
    have hc : ¬ (0 : Int) > (st.recs t).nfields := by omega
    simp [init, hc]

/-- `FITS_record(t, 0, 2, 1)` on a table of three columns has `start = 2 > end = 1` and
`len = -1`. -/
theorem record_view_inverted_window :
    ¬ (0 ≤ (init 0 3 0 2 1).start ∧ (init 0 3 0 2 1).start ≤ (init 0 3 0 2 1).end) ∧
      (init 0 3 0 2 1).len 3 < 0 := by
  decide

/-! ## Keys of a record view -/

/-- A position `p` resolves to column `start + p`, checked against `end` only. -/
theorem index_pos (v : FitsRecord) (names : List String) (p : Int) :
    v.index names (.pos p) =
      if v.start + p < v.end then .ok (v.start + p) else .error (.indexError "Index out of bounds") := by
  simp only [index]
  by_cases h : v.start + p < v.end
  · rw [if_neg (by omega), if_pos h, Int.add_comm]
  · rw [if_pos (by omega), if_neg h]

/-- A name resolves to its first index among the table's names, when that index is in the
window. -/
theorem index_name_ok (v : FitsRecord) (names : List String) (s : String) (i : Int) :
    v.index names (.name s) = .ok i ↔
      ∃ j : Nat, names.indexOf? s = some j ∧ i = j ∧ v.start ≤ j ∧ (j : Int) < v.end := by
  simp only [index, getIndex]
  cases names.indexOf? s with
  | none => simp [bind, Except.bind, throw, throwThe, MonadExceptOf.throw]
  | some j =>
    by_cases h : (j : Int) < v.start ∨ (j : Int) > v.end - 1
    · simp only [bind, Except.bind, if_pos h, throw, throwThe, MonadExceptOf.throw, reduceCtorEq, false_iff]
      rintro ⟨j', hj', -, h1, h2⟩
      cases hj'
      omega
    · simp only [bind, Except.bind, if_neg h, pure, Except.pure, Except.ok.injEq, Option.some.injEq]
      constructor
      · rintro rfl
        exact ⟨j, rfl, rfl, by omega, by omega⟩
      · rintro ⟨j', rfl, rfl, -⟩
        rfl

section Access

variable (v : FitsRecord) (st : Store) {key : Key}

/-- `v[key]` and `v[key] = x` with a key that resolves to column `i` are `field(i)[row]`. -/
theorem access_of_index_ok {i : Int} (x : Elem) (h : v.index (st.recs v.array).coldefs.names key = .ok i) :
    v.getItem key st = (FitsRec.field v.array (.pos i) >>= fun col => col.getItem v.row) st ∧
      v.setItem key x st = (FitsRec.field v.array (.pos i) >>= fun col => col.setItem v.row x) st := by
  constructor <;> simp only [getItem, setItem, getRec_bind, h, liftExcept_ok_bind]

/-- A key that does not resolve raises, and nothing changes. -/
theorem access_of_index_error {e : PyError} (x : Elem) (h : v.index (st.recs v.array).coldefs.names key = .error e) :
    v.getItem key st = .error e st ∧ v.setItem key x st = .error e st := by
  constructor <;> simp only [getItem, setItem, getRec_bind, h, liftExcept_error_bind, throw_apply]

end Access

theorem mapM_map {α β γ : Type} (f : β → M γ) (g : α → β) : ∀ l : List α, (l.map g).mapM f = l.mapM (f ∘ g)
  | [] => rfl
  | a :: l => by simp only [List.map_cons, List.mapM_cons, mapM_map f g l, Function.comp]

theorem mapM_congr_mem {α β : Type} {f g : α → M β} : ∀ {l : List α}, (∀ a ∈ l, f a = g a) → l.mapM f = l.mapM g
  | [], _ => rfl
  | a :: l, h => by
    simp only [List.mapM_cons, h a (List.mem_cons_self a l), mapM_congr_mem fun b hb => h b (List.mem_cons_of_mem a hb)]

/-- The columns `__str__` visits in a window `0 ≤ s ≤ e ≤ c` are `s, s + 1, …, e - 1`. -/
theorem window_eq {s e : Int} {c : Nat} (h0 : 0 ≤ s) (h1 : s ≤ e) (h2 : e ≤ c) :
    (List.range c).filter (fun idx : Nat => decide (s ≤ idx ∧ (idx : Int) < e)) =
      (List.range (e - s).toNat).map (s.toNat + ·) := by
  rw [show c = (c - e.toNat) + ((e - s).toNat + s.toNat) by omega, List.range_eq_range',
    ← List.range'_append_1 0 ((e - s).toNat + s.toNat), ← List.range'_append_1 0 s.toNat,
    List.filter_append, List.filter_append, List.filter_eq_nil_iff.mpr, List.filter_eq_self.mpr,
    List.filter_eq_nil_iff.mpr]
  · simp [List.range'_eq_map_range]
  all_goals
    intro x hx
    simp only [List.mem_range'_1] at hx
    simp only [decide_eq_true_eq]
    omega

/-- `str(v)` runs `v[0], …, v[len(v) - 1]` in order and lists their values. -/
theorem str_eq (v : FitsRecord) (st : Store) (h0 : 0 ≤ v.start) (h1 : v.start ≤ v.end)
    (h2 : v.end ≤ (st.recs v.array).nfields) :
    v.str st = ((List.range (v.len (st.recs v.array).nfields).toNat).mapM fun (p : Nat) => v.getItem (.pos p)) st := by
  have hlen : v.len (st.recs v.array).nfields = v.end - v.start := by
    simp only [FitsRecord.len]
    omega
  simp only [str, getRec_bind]
  rw [window_eq h0 h1 h2, mapM_map, hlen]
  refine congrFun (mapM_congr_mem fun p hp => funext fun st' => ?_) st
  rw [List.mem_range] at hp
  simp only [Function.comp, getItem, getRec_bind, index_pos, if_pos (show v.start + p < v.end by omega),
    liftExcept_ok_bind]
  rw [show ((v.start.toNat + p : Nat) : Int) = v.start + p by omega]

/-- A record view with `0 ≤ start ≤ end ≤ c` reads and writes a cell by resolving its key to a
column `i`, raising with nothing changed when that fails, and then running `field(i)[row]`. A
position `p ≥ 0` resolves exactly when `start + p < end`, to `start + p`; a name resolves exactly
when it is a column of the table whose first index lies in `[start, end)`. `len(v)` is
`end - start`, and `str(v)` runs `v[0], …, v[len(v) - 1]` in order and lists their values. -/
theorem record_view_accessors (st : Store) (v : FitsRecord)
    (hw : 0 ≤ v.start ∧ v.start ≤ v.end ∧ v.end ≤ (st.recs v.array).nfields) :
    (∀ key i x, v.index (st.recs v.array).coldefs.names key = .ok i →
      v.getItem key st = (FitsRec.field v.array (.pos i) >>= fun col => col.getItem v.row) st ∧
      v.setItem key x st = (FitsRec.field v.array (.pos i) >>= fun col => col.setItem v.row x) st) ∧
    (∀ key e x, v.index (st.recs v.array).coldefs.names key = .error e →
      v.getItem key st = .error e st ∧ v.setItem key x st = .error e st) ∧
    (∀ p i : Int, 0 ≤ p →
      (v.index (st.recs v.array).coldefs.names (.pos p) = .ok i ↔ i = v.start + p ∧ v.start ≤ i ∧ i < v.end)) ∧
    (∀ s i, v.index (st.recs v.array).coldefs.names (.name s) = .ok i ↔
      ∃ j : Nat, (st.recs v.array).coldefs.names.indexOf? s = some j ∧ i = j ∧ v.start ≤ j ∧ (j : Int) < v.end) ∧
    v.len (st.recs v.array).nfields = v.end - v.start ∧
    v.str st = ((List.range (v.len (st.recs v.array).nfields).toNat).mapM fun (p : Nat) => v.getItem (.pos p)) st := by
  obtain ⟨h0, h1, h2⟩ := hw
  refine ⟨fun key i x h => access_of_index_ok v st x h, fun key e x h => access_of_index_error v st x h,
    fun p i hp => ?_, index_name_ok v _, by simp only [FitsRecord.len]; omega, str_eq v st h0 h1 h2⟩
  rw [index_pos]
  split <;> simp only [Except.ok.injEq, reduceCtorEq, false_iff] <;> omega

/-- A table of one row and five integer columns, holding `1, 2, 3, 4, 5`. -/
def fiveCounts : Store :=
  Store.ofTable "BinTableHDU" [⟨"a", "J", .plain "i4", none, none, ""⟩, ⟨"b", "J", .plain "i4", none, none, ""⟩,
    ⟨"c", "J", .plain "i4", none, none, ""⟩, ⟨"d", "J", .plain "i4", none, none, ""⟩,
    ⟨"e", "J", .plain "i4", none, none, ""⟩] []
    [[.num (.int 1), .num (.int 2), .num (.int 3), .num (.int 4), .num (.int 5)]] []

theorem columns_two_and_three_accessors :
    (0 ≤ (init 0 5 0 1 3).start ∧ (init 0 5 0 1 3).start ≤ (init 0 5 0 1 3).end ∧
      (init 0 5 0 1 3).end ≤ (fiveCounts.recs (init 0 5 0 1 3).array).nfields) ∧
    (∀ key i x, (init 0 5 0 1 3).index (fiveCounts.recs (init 0 5 0 1 3).array).coldefs.names key = .ok i →
      (init 0 5 0 1 3).getItem key fiveCounts =
        (FitsRec.field (init 0 5 0 1 3).array (.pos i) >>= fun col => col.getItem (init 0 5 0 1 3).row) fiveCounts ∧
      (init 0 5 0 1 3).setItem key x fiveCounts =
        (FitsRec.field (init 0 5 0 1 3).array (.pos i) >>= fun col => col.setItem (init 0 5 0 1 3).row x) fiveCounts) ∧
    (∀ key e x, (init 0 5 0 1 3).index (fiveCounts.recs (init 0 5 0 1 3).array).coldefs.names key = .error e →
      (init 0 5 0 1 3).getItem key fiveCounts = .error e fiveCounts ∧
        (init 0 5 0 1 3).setItem key x fiveCounts = .error e fiveCounts) ∧
    (∀ p i : Int, 0 ≤ p →
      ((init 0 5 0 1 3).index (fiveCounts.recs (init 0 5 0 1 3).array).coldefs.names (.pos p) = .ok i ↔
        i = (init 0 5 0 1 3).start + p ∧ (init 0 5 0 1 3).start ≤ i ∧ i < (init 0 5 0 1 3).end)) ∧
    (∀ s i, (init 0 5 0 1 3).index (fiveCounts.recs (init 0 5 0 1 3).array).coldefs.names (.name s) = .ok i ↔
      ∃ j : Nat, (fiveCounts.recs (init 0 5 0 1 3).array).coldefs.names.indexOf? s = some j ∧ i = j ∧
        (init 0 5 0 1 3).start ≤ j ∧ (j : Int) < (init 0 5 0 1 3).end) ∧
    (init 0 5 0 1 3).len (fiveCounts.recs (init 0 5 0 1 3).array).nfields = (init 0 5 0 1 3).end - (init 0 5 0 1 3).start ∧
    (init 0 5 0 1 3).str fiveCounts =
      ((List.range ((init 0 5 0 1 3).len (fiveCounts.recs (init 0 5 0 1 3).array).nfields).toNat).mapM
        fun (p : Nat) => (init 0 5 0 1 3).getItem (.pos p)) fiveCounts :=
  have hw : 0 ≤ (init 0 5 0 1 3).start ∧ (init 0 5 0 1 3).start ≤ (init 0 5 0 1 3).end ∧
      (init 0 5 0 1 3).end ≤ (fiveCounts.recs (init 0 5 0 1 3).array).nfields := by decide
  ⟨hw, record_view_accessors fiveCounts (init 0 5 0 1 3) hw⟩

/-- `FITS_record(t, 0, 1, 3)` over the five columns has the window `[1, 3)`, and its position
`-1` passes the check and reads column `0`, which lies before the window. -/
theorem negative_position_reads_before_window :
    (init 0 5 0 1 3).start = 1 ∧ (init 0 5 0 1 3).end = 3 ∧
      returned ((init 0 5 0 1 3).getItem (.pos (-1))) fiveCounts = some (.num (.int 1)) := by
  decide

/-- `v[0:1]` of the view over columns `[1, 3)` is the view over absolute column `0`, not column
`1`: its position `0` reads `1`, where the view's own position `0` reads `2`. -/
theorem rewindow_reads_absolute_columns :
    ((init 0 5 0 1 3).getSlice 5 0 1).start = 0 ∧ ((init 0 5 0 1 3).getSlice 5 0 1).end = 1 ∧
      returned (((init 0 5 0 1 3).getSlice 5 0 1).getItem (.pos 0)) fiveCounts = some (.num (.int 1)) ∧
      returned ((init 0 5 0 1 3).getItem (.pos 0)) fiveCounts = some (.num (.int 2)) := by
  decide

end PyFits.RecordWindow
