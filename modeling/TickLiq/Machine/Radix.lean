import Mathlib.Data.Nat.Digits.Lemmas

/-!
# Change of radix

Digits, the most significant first, are rewritten in another base. The leading zeros have no
value; they are carried over one for one, and so the change can be undone.
-/
namespace Machine

def leadingZeros (ds : List ℕ) : ℕ := (ds.takeWhile (· == 0)).length

/-- The digits in base `c` of digits in base `b`. -/
def changeRadix (b c : ℕ) (ds : List ℕ) : List ℕ :=
  List.replicate (leadingZeros ds) 0 ++ (Nat.digits c (Nat.ofDigits b ds.reverse)).reverse

/-- No zero leads. -/
def Significant (ds : List ℕ) : Prop := ∀ d ∈ ds.head?, d ≠ 0

theorem leadingZeros_significant {ds : List ℕ} (significant : Significant ds) (k : ℕ) :
    leadingZeros (List.replicate k 0 ++ ds) = k := by
  induction k with
  | zero =>
    cases ds with
    | nil => rfl
    | cons d ds =>
      have nonzero : d ≠ 0 := significant d rfl
      simp [leadingZeros, nonzero]
  | succ k ih =>
    simp only [List.replicate_succ, List.cons_append, leadingZeros] at ih ⊢
    rw [List.takeWhile_cons_of_pos (by rfl), List.length_cons, ih]

/-- Every list of digits is zeros in front of a significant one. -/
theorem exists_significant (ds : List ℕ) :
    ∃ k rest, ds = List.replicate k 0 ++ rest ∧ Significant rest := by
  induction ds with
  | nil => exact ⟨0, [], rfl, by simp [Significant]⟩
  | cons d ds ih =>
    by_cases zero : d = 0
    · obtain ⟨k, rest, rfl, significant⟩ := ih
      exact ⟨k + 1, rest, by rw [zero, List.replicate_succ, List.cons_append], significant⟩
    · exact ⟨0, d :: ds, rfl, by simp [Significant, zero]⟩

theorem changeRadix_significant (b c k : ℕ) {ds : List ℕ} (significant : Significant ds) :
    changeRadix b c (List.replicate k 0 ++ ds) =
      List.replicate k 0 ++ (Nat.digits c (Nat.ofDigits b ds.reverse)).reverse := by
  rw [changeRadix, leadingZeros_significant significant, List.reverse_append,
    List.reverse_replicate, Nat.ofDigits_append_replicate_zero]

theorem digits_significant (c n : ℕ) : Significant (Nat.digits c n).reverse := by
  intro d first
  rw [List.head?_reverse] at first
  by_cases zero : n = 0
  · simp [zero] at first
  · have present := Nat.digits_ne_nil_iff_ne_zero (b := c).mpr zero
    rw [List.getLast?_eq_some_getLast present] at first
    cases first
    exact Nat.getLast_digit_ne_zero c zero

theorem digits_of_significant {b : ℕ} (base : 1 < b) {ds : List ℕ} (digit : ∀ d ∈ ds, d < b)
    (significant : Significant ds) : Nat.digits b (Nat.ofDigits b ds.reverse) = ds.reverse := by
  refine Nat.digits_ofDigits b base ds.reverse ?_ ?_
  · intro d member
    exact digit d (List.mem_reverse.mp member)
  · intro present
    rw [List.getLast_reverse]
    exact significant _ (List.head?_eq_some_head _)

/-- Changing the base and changing it back gives the same digits. -/
theorem changeRadix_changeRadix {b : ℕ} (base : 1 < b) (c : ℕ) {ds : List ℕ}
    (digit : ∀ d ∈ ds, d < b) : changeRadix c b (changeRadix b c ds) = ds := by
  obtain ⟨k, rest, rfl, significant⟩ := exists_significant ds
  have inside : ∀ d ∈ rest, d < b := fun d member => digit d (List.mem_append_right _ member)
  rw [changeRadix_significant b c k significant,
    changeRadix_significant c b k (digits_significant c _), List.reverse_reverse,
    Nat.ofDigits_digits, digits_of_significant base inside significant, List.reverse_reverse]

theorem changeRadix_lt (b : ℕ) {c : ℕ} (base : 1 < c) (ds : List ℕ) :
    ∀ d ∈ changeRadix b c ds, d < c := by
  intro d member
  rcases List.mem_append.mp member with zero | value
  · rw [List.eq_of_mem_replicate zero]
    omega
  · exact Nat.digits_lt_base base (List.mem_reverse.mp value)

end Machine
