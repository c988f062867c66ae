import PyFits.ScaleBackFrame

/-!
# Scaled numeric columns

A fixed-width column with `TSCAL` or `TZERO` is read as `float64`, `r * bscale + bzero`, and
written back as `(v - bzero) / bscale`, cast into the field's integer type. The cast rounds
first only when `field[0]` is an integer scalar: for a vector column numpy's `astype`
truncates, and so does the `%d` of an ASCII column, so a value does not come back to the nearest
integer, and a stored integer need not survive a read and a save. A table with no rows cannot be saved at all once a scaled column is
materialized: `field[0]` raises `IndexError`.

A variable-length column is scaled in the element type of its heap rows: for an integer element
type every decoded value is an integer, so it is not `r * bscale + bzero` whenever that is not
one, and the fixed-width and variable-length paths disagree.
-/

namespace PyFits.ScaledValues

open ScaleBackFrame

/-! ## Writing back a scaled column -/

theorem raised_liftExcept_bind {α β : Type} {x : Except PyError α} {k : α → M β} {st : Store}
    (h : ∀ a, x = .ok a → raised (k a) st ≠ none) : raised (liftExcept x >>= k) st ≠ none := by
  cases x with
  | error e => simp [raised]
  | ok a => exact h a rfl

/-- On a binary table, the write-back of a scaled numeric column of a record with no rows
raises: unscaling the values raises, or the write reads `field[0]`, which has no row. -/
theorem scaleBackValues_zero_rows_raises {t c : Nat} {r : FitsRec} {loc : List Int}
    {widths : List (Option Nat)} {conv : List Elem} {sf : ScaleFactors} {st : Store}
    (hbin : (st.recs t).coldefs.isAscii = false) (hlen : r.len = 0) (hnum : sf.number = true)
    (hscaled : (sf.scale || sf.zero) = true) :
    raised (scaleBackValues t r loc widths c conv sf) st ≠ none := by
  simp only [scaleBackValues, hnum, hscaled, Bool.true_or, Bool.and_self, if_true, bind_map_left]
  refine raised_liftExcept_bind fun _ _ => ?_
  rw [raised_bind_ok (getRec_apply _ t)]
  simp [hbin, binaryWrite, hlen, raised]

/-- On a binary table with no rows, the turn of the loop for a materialized scaled numeric
column that is not an `X` column raises, from every store the loop can reach: the `P` branch
keeps the table's descriptors, so the write-back that follows it raises. -/
theorem scaleBackColumn_zero_rows_raises {t c : Nat} {W : Base → Int → Prop} {st0 st : Store} {cv : View}
    {sf : ScaleFactors} (hst : ColumnsFrame t W st0 st) (hbin : (st0.recs t).coldefs.isAscii = false)
    (hlen : (st0.recs t).len = 0) (hc : st0.conv (st0.recs t).convert c = some cv)
    (hx : ∀ nx, ((st0.recs t).coldefs.col c).recformat ≠ .x nx)
    (hsf : getScaleFactors (st0.recs t).coldefs c = .ok sf) (hnum : sf.number = true)
    (hscaled : (sf.scale || sf.zero) = true) :
    raised (scaleBackColumn t [] [] c) st ≠ none := by
  have hcv : st.conv (st.recs t).convert c = some cv := by rw [hst.conv, hst.convert]; exact hc
  have hvals : ∀ st', ColumnsFrame t W st0 st' →
      raised (scaleBackValues t (st.recs t) [] [] c (st.read cv) sf) st' ≠ none := fun _ hst' =>
    scaleBackValues_zero_rows_raises (by rw [hst'.coldefs]; exact hbin) (by rw [hst.len]; exact hlen) hnum hscaled
  rw [scaleBackColumn, raised_bind_ok (getRec_apply st t), raised_bind_ok (getConv_apply st _ c)]
  simp only [hcv]
  rw [raised_bind_ok (readView_apply st cv)]
  split
  · next nx hfmt => exact absurd (hst.coldefs ▸ hfmt) (hx nx)
  · rw [hst.coldefs, hsf, liftExcept_ok_bind]
    split
    · next dt _ =>
      have hP : Stays (ColumnsFrame t W st0) (scaleBackP t (st.read cv) dt ((st.recs t).rawField c)) :=
        stays_scaleBackP (fun j hj => absurd hj (by simp [hst.len, hlen])) _ _
      match h : scaleBackP t (st.read cv) dt ((st.recs t).rawField c) st with
      | .error e _ => simp [raised_bind_error h]
      | .ok _ st' =>
        rw [raised_bind_ok h]
        exact hvals st' (by simpa only [final_ok h] using hP st hst)
    · exact hvals st hst

/-- `_scale_back` raises on every binary table with no rows and a materialized scaled numeric
column, fixed-width or variable-length, whatever the other columns hold. -/
theorem scaleBack_zero_rows_raises (t c : Nat) (st : Store) (cv : View) (sf : ScaleFactors)
    (hbin : (st.recs t).coldefs.isAscii = false) (hlen : (st.recs t).len = 0)
    (hi : c < (st.recs t).nfields) (hc : st.conv (st.recs t).convert c = some cv)
    (hx : ∀ nx, ((st.recs t).coldefs.col c).recformat ≠ .x nx)
    (hsf : getScaleFactors (st.recs t).coldefs c = .ok sf) (hnum : sf.number = true)
    (hscaled : (sf.scale || sf.zero) = true) :
    raised (FitsRec.scaleBack t) st ≠ none := by
  let st1 : Store := { st with recs := setAt st.recs t { st.recs t with heapsize := 0 } }
  have hk : ∀ st', ColumnsFrame t (fun _ _ => True) st1 st' → raised (scaleBackColumn t [] [] c) st' ≠ none :=
    fun st' hst' => scaleBackColumn_zero_rows_raises hst' (by simpa [st1] using hbin)
      (by simpa [st1] using hlen) (by simpa [st1] using hc) (by simpa [st1] using hx)
      (by simpa [st1] using hsf) hnum hscaled
  rw [FitsRec.scaleBack, raised_bind_ok (getRec_apply _ t)]
  simp only [hbin, Bool.false_eq_true, if_false, pure_bind, getRec_bind, setRec_bind]
  exact raised_forM_of_mem (fun x => stays_scaleBackColumn [] [] x fun _ _ _ _ _ => trivial) hk
    (List.mem_range.mpr (by simpa [st1] using hi)) st1 (ColumnsFrame.refl t _ st1)

/-- A binary table with no rows and one `I` column scaled by `2`, read before it is saved. -/
def emptyScaled : Store :=
  final (FitsRec.field 0 (.pos 0))
    (Store.ofTable "BinTableHDU" [⟨"s", "I", .plain "i2", some (.fin 1 1), none, ""⟩] [] [] [])

theorem emptyScaled_scale_back_raises : raised (FitsRec.scaleBack 0) emptyScaled ≠ none :=
  scaleBack_zero_rows_raises 0 0 emptyScaled ⟨.arr 1, 0, 1, 0, .num (.float 8)⟩
    ⟨false, false, true, true, false, .fin 1 1, fltZero⟩ (by decide) (by decide) (by decide) (by decide)
    (fun _ h => nomatch h) rfl rfl rfl

/-- A binary table of one row with a `2I` vector column scaled by `0.7`, both stored values `3`. -/
def vectorTable : Store :=
  Store.ofTable "BinTableHDU" [⟨"v", "2I", .plain "2i2", (pyFloat? "0.7".toList), none, ""⟩] []
    [[.nums [.int 3, .int 3]]] []

/-- An ASCII table of one row with an `I5` column scaled by `0.7`, holding `    3`. -/
def asciiScaled : Store :=
  Store.ofTable "TableHDU" [⟨"s", "I5", .plain "a5", (pyFloat? "0.7".toList), none, ""⟩] [1]
    [[.text "    3".toList]] []

/-- Reading the column and saving the table turns the stored `3` into `2`, in the vector column
and in the ASCII column: `3 * 0.7 / 0.7` is `2.9999999999999996`, which `astype` and `%d` both
truncate. -/
theorem scaled_round_trip_truncates :
    (final (FitsRec.scaleBack 0) (final (FitsRec.field 0 (.pos 0)) vectorTable)).mem (.field 0 0) 0 =
      .nums [.int 2, .int 2] ∧
    (final (FitsRec.scaleBack 0) (final (FitsRec.field 0 (.pos 0)) asciiScaled)).mem (.field 0 0) 0 =
      .text "    2".toList := by
  decide

/-! ## Reading a scaled variable-length column -/

/-- A row of a variable-length column whose elements are all integers. -/
def IntegerRow : Elem → Prop
  | .nums xs => ∀ x ∈ xs, ∃ i, x = .int i
  | _ => False

theorem decodeBE_integer {k : NumKind} (hk : ∀ b, k ≠ .float b) (bytes : List Nat) :
    ∃ i, decodeBE k bytes = .int i := by
  match k, hk with
  | .int _, _ | .uint _, _ => exact ⟨_, rfl⟩
  | .float b, hk => exact absurd rfl (hk b)

theorem Num.cast_integer {k : NumKind} (hk : ∀ b, k ≠ .float b) (x : Num) : ∃ i, Num.cast k x = .int i := by
  match k, hk, x with
  | .int _, _, .int _ | .int _, _, .float _ | .uint _, _, .int _ | .uint _, _, .float _ => exact ⟨_, rfl⟩
  | .float b, hk, _ => exact absurd rfl (hk b)

theorem readHeap_integer {file : Option Nat} {offset count : Int} {dt : String} {c : Char}
    {n : List Char} {k : NumKind} (hdt : dt.toList = c :: n) (hk : numKind? c (digitsValue n) = some k)
    (hint : ∀ b, k ≠ .float b) (ha : dt ≠ "a") : Returns IntegerRow (readHeap file offset count dt) := by
  unfold readHeap
  refine returns_bind (returns_true _) fun _ _ => returns_bind (returns_true _) fun _ _ =>
    returns_bind (returns_true _) fun items _ => ?_
  simp only [ha, if_false, hdt, hk]
  exact returns_pure fun x hx => by
    obtain ⟨bytes, -, rfl⟩ := List.mem_map.mp hx
    exact decodeBE_integer hint bytes

theorem scaleHeapRow_integer (sf : ScaleFactors) {k : NumKind} (hint : ∀ b, k ≠ .float b) (e y : Elem)
    (h : scaleHeapRow sf k e = .ok y) : IntegerRow y := by
  cases e <;> simp only [scaleHeapRow, Except.ok.injEq, reduceCtorEq] at h
  subst h
  intro x hx
  obtain ⟨z, -, rfl⟩ := List.mem_map.mp hx
  exact Num.cast_integer hint _

/-- The variable-length branch of `field` for an integer element type, signed or unsigned,
returns rows of integers only, scaled or not, for every heap and every descriptor. -/
theorem decodeP_integer (r : FitsRec) (sf : ScaleFactors) {dt : String} {c : Char} {n : List Char}
    {k : NumKind} (hdt : dt.toList = c :: n) (hk : numKind? c (digitsValue n) = some k)
    (hint : ∀ b, k ≠ .float b) (ha : dt ≠ "a") (hl : dt ≠ "i1") (raw : List Elem) :
    Returns (fun rows => ∀ row ∈ rows, IntegerRow row) (decodeP r sf dt raw) := by
  unfold decodeP
  refine returns_bind (show Returns (fun ys => ∀ y ∈ ys, IntegerRow y) _ from returns_mapM fun e _ => ?_)
    fun rows hrows => ?_
  · split
    · exact returns_bind (returns_true _) fun _ _ => returns_bind (returns_true _) fun _ _ =>
        readHeap_integer hdt hk hint ha
    · exact returns_throw _
  · simp only [hdt, hk, Option.getD_some, hl, if_false]
    split
    · exact returns_bind (returns_liftExcept fun ys hys =>
        except_mapM_forall (fun e _ y hy => scaleHeapRow_integer sf hint e y hy) hys) fun ys hys => returns_pure hys
    · exact returns_bind (returns_pure hrows) fun ys hys => returns_pure hys

/-- A binary table of one row with a `PI` column and an `I` column, both scaled by `0.5`, each
storing `1` (the heap holds the big-endian `int16` `1`). -/
def heapTable : Store :=
  Store.ofTable "BinTableHDU" [⟨"p", "PI(1)", .p "i2", some (.fin 1 (-1)), none, ""⟩,
    ⟨"q", "I", .plain "i2", some (.fin 1 (-1)), none, ""⟩] []
    [[.nums [.int 1, .int 0], .num (.int 1)]] [0, 1]

/-- The rows an `int16` column scaled by `0.5` decodes to are rows of integers. -/
theorem heap_rows_integer :
    Returns (fun rows => ∀ row ∈ rows, IntegerRow row)
      (decodeP (heapTable.recs 0) ⟨false, false, true, true, false, .fin 1 (-1), fltZero⟩ "i2"
        [.nums [.int 1, .int 0]]) :=
  decodeP_integer _ _ (show "i2".toList = 'i' :: ['2'] from rfl)
    (show numKind? 'i' (digitsValue ['2']) = some (.int 2) from rfl) (fun _ h => nomatch h) (by decide)
    (by decide) _

/-- The fixed-width column reads `1 * 0.5 = 0.5`; the variable-length one reads `0`. -/
theorem heap_and_fixed_paths_differ :
    returned (do
      let vp ← (← FitsRec.field 0 (.pos 0)).getItem 0
      let vq ← (← FitsRec.field 0 (.pos 1)).getItem 0
      pure (vp, vq)) heapTable = some (.nums [.int 0], .num (.float (.fin 1 (-1)))) := by
  decide

end PyFits.ScaledValues
