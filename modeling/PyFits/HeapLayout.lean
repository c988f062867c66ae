import PyFits.ScaleBackFrame
import Mathlib.Algebra.BigOperators.Ring

/-!
# The heap of variable-length columns

`_scale_back` lays the rows of each variable-length (`P`) column out on the heap one after the
other: row `i`'s descriptor becomes `(l_i, H + w * (l_0 + ... + l_{i-1}))`, where `l` are the
row lengths, `w` the element size and `H` the `_heapsize` reached by the `P` columns before,
and `_heapsize` grows by `w * Σ l`. So the byte ranges of the rows are disjoint and follow one
another from `H`.

A scaled `P` column then also goes through the scaled-numeric branch: `f[:] =
dummy.astype(f.dtype)` writes its unscaled values into the descriptor field itself, over the
descriptors just computed.
-/

namespace PyFits.HeapLayout

/-! ## Numbers that fit -/

theorem wrapInt_of_lt {x : Int} (h0 : 0 ≤ x) (h : x < 2 ^ 31) : wrapInt 4 true x = x := by
  have hm : x % 2 ^ 32 = x := Int.emod_eq_of_lt h0 (by omega)
  simp only [wrapInt, hm]
  rw [if_neg (by omega)]

theorem broadcast_of_length {n : Nat} {xs : List Elem} (h : xs.length = n) : broadcast n xs = .ok xs := by
  match xs, h with
  | [x], h => subst h; rfl
  | [], h => simp [broadcast, ← h]
  | x :: y :: zs, h => simp [broadcast, ← h]

/-- The counts `_scale_back` stores are the row lengths, when there is one length per row and
each fits in 32 bits. -/
theorem counts_eq {npts : List Nat} {n : Nat} (hn : npts.length = n) (hfit : ∀ l ∈ npts, l < 2 ^ 31) :
    ((List.range n).map fun j => if j < npts.length then wrapInt 4 true (npts.getD j 0) else 0) =
      npts.map fun (l : Nat) => (l : Int) := by
  subst hn
  refine List.ext_getElem (by simp) fun j h1 h2 => ?_
  have hj : j < npts.length := by simpa using h1
  have hl : npts[j] < 2 ^ 31 := hfit _ (List.getElem_mem hj)
  simp only [List.getElem_map, List.getElem_range, hj, if_true, List.getD_eq_getElem?_getD,
    List.getElem?_eq_getElem hj, Option.getD_some]
  exact wrapInt_of_lt (by omega) (by omega)

/-- A binary table of one row with a `PI` column scaled by `2`: the row holds one element, and
the heap holds the big-endian `int16` `4`. -/
def scaledHeap : Store :=
  Store.ofTable "BinTableHDU" [⟨"p", "PI(1)", .p "i2", some (.fin 1 1), none, ""⟩] []
    [[.nums [.int 1, .int 0]]] [0, 4]

/-! ## The descriptors of one column -/

section Descriptors

variable {self : Nat} {conv : List Elem} {dt : String} {desc : View} {npts : List Nat} {w : Nat}

/-- The `P` branch of `_scale_back` on one column: every row's descriptor is its length and
the offset of its first byte, the rows laid out one after the other from `_heapsize`, which
grows by the column's total byte size. -/
theorem scaleBackP_descriptors (st : Store) (hnpts : rowLengths conv = .ok npts)
    (hlen : npts.length = desc.len) (hw : heapItemsize? dt = some w) (hs : desc.stride ≠ 0)
    (hfit : ∀ l ∈ npts, l < 2 ^ 31) (hH : 0 ≤ (st.recs self).heapsize)
    (htot : (st.recs self).heapsize + w * npts.sum < 2 ^ 31) :
    ∃ st', scaleBackP self conv dt desc st = .ok () st' ∧
      (st'.recs self).heapsize = (st.recs self).heapsize + w * npts.sum ∧
      ∀ i < desc.len, st'.mem desc.base (desc.pos i) =
        .nums [.int (npts.getD i 0), .int ((st.recs self).heapsize + w * (npts.take i).sum)] := by
  have hb1 : broadcast desc.len [Elem.nums [.int 0, .int 0]] =
      .ok (List.replicate desc.len (.nums [.int 0, .int 0])) := rfl
  have hb2 : broadcast desc.len ((npts.map fun (l : Nat) => (l : Int)).map fun n => Elem.nums [.int n, .int 0]) =
      .ok _ := broadcast_of_length (by simp [hlen])
  have hb3 : ∀ H, broadcast desc.len (descriptors (npts.map fun (l : Nat) => (l : Int)) w H) = .ok _ :=
    fun H => broadcast_of_length (by simp [descriptors, hlen])
  have hif : ¬ (npts.length > desc.len ∧ npts.length ≠ 1) := by omega
  simp only [scaleBackP, View.setAll, hnpts, liftExcept_ok_bind, counts_eq hlen hfit, hw, hb1, hb2, hb3,
    hif, if_false, Option.elim, pure_bind, bind_assoc]
  refine ⟨_, rfl, ?_, fun i hi => ?_⟩
  · simp only [bind, EStateM.bind, setRec, getRec, setAt_same, Store.writeList_recs, Nat.cast_list_sum]
  · simp only [bind, EStateM.bind, setRec, getRec, setAt_same, Store.writeList_recs]
    refine (Store.writeList_mem_at _ desc hs _ i (by simp [descriptors, hlen, hi])).trans ?_
    have hsum : (npts.take i).sum ≤ npts.sum := by
      rw [← List.sum_take_add_sum_drop npts i]; omega
    have hle : (w : Int) * ((npts.take i).sum : Nat) ≤ w * npts.sum := by
      exact_mod_cast Nat.mul_le_mul_left w hsum
    have h0 : (0 : Int) ≤ w * ((npts.take i).sum : Nat) := by exact_mod_cast Nat.zero_le _
    simp only [descriptors, List.getElem_map, List.getElem_range, ← List.map_take, ← Nat.cast_list_sum]
    rw [show (0 : Int) = ((0 : Nat) : Int) from rfl, List.getD_eq_getElem?_getD, List.getElem?_map,
      Option.getD_map, ← List.getD_eq_getElem?_getD, wrapInt_of_lt (by omega) (by omega), Int.add_comm]

end Descriptors

/-- Two rows of lengths `2` and `1` of `int16` elements, from `_heapsize` zero: the descriptors
become `(2, 0)` and `(1, 4)`, and `_heapsize` becomes `6`. -/
theorem two_rows_laid_out :
    ∃ st', scaleBackP 0 [.nums [.int 5, .int 6], .nums [.int 7]] "i2" ⟨.field 0 0, 0, 1, 2, .nums (.int 4) 2⟩ scaledHeap =
      .ok () st' ∧ (st'.recs 0).heapsize = 6 ∧ st'.mem (.field 0 0) 0 = .nums [.int 2, .int 0] ∧
      st'.mem (.field 0 0) 1 = .nums [.int 1, .int 4] := by
  obtain ⟨st', h, hsize, hdesc⟩ := scaleBackP_descriptors scaledHeap
    (show rowLengths [.nums [.int 5, .int 6], .nums [.int 7]] = .ok [2, 1] from rfl)
    (show [2, 1].length = (⟨.field 0 0, 0, 1, 2, .nums (.int 4) 2⟩ : View).len from rfl) (show heapItemsize? "i2" = some 2 from rfl)
    (by decide) (by decide) (show 0 ≤ (scaledHeap.recs 0).heapsize by decide) (by decide)
  exact ⟨st', h, hsize, hdesc 0 (by decide), hdesc 1 (by decide)⟩

/-! ## A scaled variable-length column -/

/-- `_scale_back` of a binary table with one column is the turn of the loop for that column,
from `_heapsize` reset to zero. -/
theorem scaleBack_one_binary_column (t : Nat) (st : Store) (hbin : (st.recs t).coldefs.isAscii = false)
    (hn : (st.recs t).nfields = 1) :
    final (FitsRec.scaleBack t) st =
      final (scaleBackColumn t [] [] 0) { st with recs := setAt st.recs t { st.recs t with heapsize := 0 } } := by
  simp only [final, FitsRec.scaleBack, getRec_bind, hbin, Bool.false_eq_true, if_false, pure_bind, setRec_bind,
    setAt_same, hn, show List.range 1 = [0] from rfl, List.forM_cons', List.forM_nil', bind_pure_unit]

/-- Reading the column and saving the table leaves the descriptor `(4, 4)`, not `(1, 0)`: the
unscaled row `[4]` is cast into the descriptor field and broadcast over both of its numbers. -/
theorem scaled_descriptor_overwritten :
    (final (FitsRec.scaleBack 0) (final (FitsRec.field 0 (.pos 0)) scaledHeap)).mem (.field 0 0) 0 =
      .nums [.int 4, .int 4] := by
  rw [scaleBack_one_binary_column 0 _ (by decide) (by decide)]
  decide

end PyFits.HeapLayout
