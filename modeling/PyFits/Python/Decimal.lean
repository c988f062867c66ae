import PyFits.Python.Text
import Mathlib.Tactic.IntervalCases

/-!
# Reading back a printed integer

`int(s)` reads back what `str(n)` prints, with any blanks around it: `str(n)` is a nonempty run
of decimal digits, after a `-` for a negative `n`, and the digits spell `|n|`. This is the
round trip of an integer cell of an ASCII table through `field` and `_scale_back`.
-/

namespace PyFits

/-! ## Digits -/

theorem digitChar_toNat {d : Nat} (h : d < 10) : (digitChar d).toNat = 48 + d := by
  interval_cases d <;> rfl

theorem digitChar_isDigit {d : Nat} (h : d < 10) : (digitChar d).isDigit = true := by
  interval_cases d <;> rfl

theorem digitsValue_append_singleton (ds : List Char) (c : Char) :
    digitsValue (ds ++ [c]) = 10 * digitsValue ds + (c.toNat - 48) := by
  simp only [digitsValue, List.foldl_append, List.foldl_cons, List.foldl_nil]

/-- The loop of `showNat` puts the digits of `n` in front of `acc`, given enough fuel. -/
theorem showNat_go_digits (fuel n : Nat) (acc : List Char) (h : n < fuel) :
    ∃ ds, showNat.go fuel n acc = ds ++ acc ∧ ds ≠ [] ∧ ds.all Char.isDigit ∧ digitsValue ds = n := by
  induction fuel generalizing n acc with
  | zero => omega
  | succ fuel ih =>
    have hd : n % 10 < 10 := Nat.mod_lt n (by omega)
    by_cases hn : n / 10 = 0
    · refine ⟨[digitChar (n % 10)], by simp [showNat.go, hn], by simp, by simp [digitChar_isDigit hd], ?_⟩
      simp only [digitsValue, List.foldl_cons, List.foldl_nil, digitChar_toNat hd]
      omega
    · obtain ⟨ds, hgo, hne, hall, hval⟩ := ih (n / 10) (digitChar (n % 10) :: acc) (by omega)
      refine ⟨ds ++ [digitChar (n % 10)], by simp [showNat.go, hn, hgo], by simp, ?_, ?_⟩
      · simp [hall, digitChar_isDigit hd]
      · rw [digitsValue_append_singleton, hval, digitChar_toNat hd]
        omega

theorem showNat_digits (n : Nat) :
    showNat n ≠ [] ∧ (showNat n).all Char.isDigit ∧ digitsValue (showNat n) = n := by
  obtain ⟨ds, hgo, hne, hall, hval⟩ := showNat_go_digits (n + 1) n [] (by omega)
  simp only [showNat, hgo, List.append_nil]
  exact ⟨hne, hall, hval⟩

theorem natOfDigits_showNat (n : Nat) : natOfDigits? (showNat n) = some n := by
  obtain ⟨hne, hall, hval⟩ := showNat_digits n
  simp [natOfDigits?, hne, hall, hval]

/-! ## Blanks around a word -/

theorem isSpace_of_isDigit {c : Char} (h : c.isDigit = true) : isSpace c = false := by
  simp only [Char.isDigit, Bool.and_eq_true, decide_eq_true_eq] at h
  have h1 : 48 ≤ c.val.toNat := h.1
  have h2 : c.val.toNat ≤ 57 := h.2
  simp only [isSpace, Bool.or_eq_false_iff, decide_eq_false_iff_not]
  refine ⟨⟨⟨⟨⟨?_, ?_⟩, ?_⟩, ?_⟩, ?_⟩, ?_⟩ <;> intro he <;> subst he <;> simp_all

theorem dropWhile_blanks (a : Nat) (s : List Char) (hs : ∀ c ∈ s.head?, isSpace c = false) :
    (blanks a ++ s).dropWhile isSpace = s := by
  induction a with
  | zero =>
    cases s with
    | nil => rfl
    | cons c s => simp [List.dropWhile_cons, hs c rfl]
  | succ a ih => simpa [blanks, List.replicate_succ, List.dropWhile_cons, isSpace] using ih

/-- A word whose first and last characters are not blanks is what `strip` leaves of it with
blanks around it. -/
theorem strip_blanks (a b : Nat) {s : List Char} (hs : s ≠ []) (hh : ∀ c ∈ s.head?, isSpace c = false)
    (hl : ∀ c ∈ s.getLast?, isSpace c = false) : strip (blanks a ++ s ++ blanks b) = s := by
  have hr : ∀ c ∈ s.reverse.head?, isSpace c = false := by
    simpa [List.head?_reverse] using hl
  rw [strip, List.append_assoc, dropWhile_blanks a _ (by cases s <;> simp_all),
    List.reverse_append, show (blanks b).reverse = blanks b from List.reverse_replicate b ' ',
    dropWhile_blanks b _ hr, List.reverse_reverse]

/-! ## `int(str(n))` -/

theorem showNat_ends (n : Nat) :
    (∀ c ∈ (showNat n).head?, isSpace c = false ∧ c ≠ '-' ∧ c ≠ '+') ∧
      ∀ c ∈ (showNat n).getLast?, isSpace c = false := by
  obtain ⟨-, hall, -⟩ := showNat_digits n
  have hdig : ∀ c ∈ showNat n, c.isDigit = true := fun c hc => List.all_eq_true.mp hall c hc
  refine ⟨fun c hc => ?_, fun c hc => isSpace_of_isDigit (hdig c (List.mem_of_getLast?_eq_some hc))⟩
  have hd := hdig c (List.mem_of_mem_head? hc)
  refine ⟨isSpace_of_isDigit hd, ?_, ?_⟩ <;> rintro rfl <;> simp [Char.isDigit] at hd

theorem splitSign_showNat (n : Nat) : splitSign (showNat n) = (false, showNat n) := by
  have h := (showNat_ends n).1
  match hs : showNat n with
  | [] => rfl
  | c :: r =>
    rw [hs] at h
    obtain ⟨-, hm, hp⟩ := h c rfl
    simp only [splitSign]
    split <;> simp_all

/-- Every character of `str(n)` is a decimal digit or the sign `-`. -/
theorem showInt_chars (n : Int) : ∀ c ∈ showInt n, c = '-' ∨ c.isDigit = true := by
  have hdig : ∀ c ∈ showNat n.natAbs, c.isDigit = true :=
    fun c hc => List.all_eq_true.mp (showNat_digits n.natAbs).2.1 c hc
  unfold showInt
  split
  · intro c hc
    rcases List.mem_cons.mp hc with rfl | hc
    · exact .inl rfl
    · exact .inr (hdig c hc)
  · exact fun c hc => .inr (hdig c hc)

theorem showInt_ends (n : Int) : showInt n ≠ [] ∧ (∀ c ∈ (showInt n).head?, isSpace c = false) ∧
    ∀ c ∈ (showInt n).getLast?, isSpace c = false := by
  have hne := (showNat_digits n.natAbs).1
  obtain ⟨hh, hl⟩ := showNat_ends n.natAbs
  unfold showInt
  split
  · obtain ⟨x, hx⟩ : ∃ x, (showNat n.natAbs).getLast? = some x :=
      Option.isSome_iff_exists.mp (List.getLast?_isSome.mpr hne)
    refine ⟨List.cons_ne_nil _ _, by simp [isSpace], ?_⟩
    simpa [List.getLast?_cons, hx] using hl x hx
  · exact ⟨hne, fun c hc => (hh c hc).1, hl⟩

theorem strip_showInt (a b : Nat) (n : Int) : strip (blanks a ++ showInt n ++ blanks b) = showInt n :=
  let ⟨hne, hh, hl⟩ := showInt_ends n
  strip_blanks a b hne hh hl

/-- `int()` of `str(n)` with blanks on both sides is `n`. -/
theorem pyInt_showInt (a b : Nat) (n : Int) : pyInt? (blanks a ++ showInt n ++ blanks b) = some n := by
  unfold pyInt?
  rw [strip_showInt]
  by_cases hn : n < 0
  · simp only [showInt, hn, if_true, splitSign, natOfDigits_showNat]
    simp [abs_of_neg hn]
  · simp only [showInt, hn, if_false, splitSign_showNat, natOfDigits_showNat, Bool.false_eq_true]
    simp
    omega

end PyFits
