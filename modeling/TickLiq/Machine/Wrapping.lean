import Mathlib.Algebra.BigOperators.Group.List.Basic
import Mathlib.Algebra.GroupWithZero.Nat

/-!
# Counters that wrap

Unsigned machine integers as natural numbers below a modulus. The difference of
two readings of a counter is what was added in between, as long as that is below
the modulus.
-/
namespace Machine

/-- `a.wrapping_sub(b)` for `a` and `b` below `m`. -/
def wrappingSub (m a b : ℕ) : ℕ := (a + m - b) % m

theorem wrappingSub_self {m a : ℕ} : wrappingSub m a a = 0 := by
  simp only [wrappingSub]
  rw [Nat.add_sub_cancel_left, Nat.mod_self]

/-- A counter at `b` that has grown by `x` reads `x` more. -/
theorem wrappingSub_add {m b x : ℕ} (inside : b < m) (small : x < m) :
    wrappingSub m ((b + x) % m) b = x := by
  unfold wrappingSub
  by_cases fits : b + x < m
  · rw [Nat.mod_eq_of_lt fits]
    have difference : b + x + m - b = x + m := by omega
    rw [difference, Nat.add_mod_right, Nat.mod_eq_of_lt small]
  · -- one wrap at most, since both summands are below the modulus
    have wrapped : (b + x) % m = b + x - m := by
      rw [Nat.mod_eq_sub_mod (by omega), Nat.mod_eq_of_lt (by omega)]
    have difference : b + x - m + m - b = x := by omega
    rw [wrapped, difference, Nat.mod_eq_of_lt small]

theorem add_wrappingSub {m a b : ℕ} (left : a < m) (right : b < m) :
    (b + wrappingSub m a b) % m = a := by
  unfold wrappingSub
  by_cases below : b ≤ a
  · have difference : a + m - b = a - b + m := by omega
    rw [difference, Nat.add_mod_right, Nat.mod_eq_of_lt (show a - b < m by omega),
      Nat.add_sub_cancel' below, Nat.mod_eq_of_lt left]
  · rw [Nat.mod_eq_of_lt (show a + m - b < m by omega)]
    have around : b + (a + m - b) = a + m := by omega
    rw [around, Nat.add_mod_right, Nat.mod_eq_of_lt left]

/-- A wrapped difference is the difference modulo the modulus. -/
theorem wrappingSub_emod {m a b : ℕ} (inside : b < m) :
    (wrappingSub m a b : ℤ) = ((a : ℤ) - b) % m := by
  have difference : ((a + m - b : ℕ) : ℤ) = (a : ℤ) - b + m := by omega
  rw [wrappingSub, Int.natCast_mod, difference, Int.add_emod_right]

/-- Two growths in a row that stay below the modulus add up. -/
theorem wrappingSub_split {m c0 c1 c2 : ℕ} (first : c0 < m) (second : c1 < m) (third : c2 < m)
    (fits : wrappingSub m c1 c0 + wrappingSub m c2 c1 < m) :
    wrappingSub m c2 c0 = wrappingSub m c1 c0 + wrappingSub m c2 c1 := by
  have reached : (c0 + (wrappingSub m c1 c0 + wrappingSub m c2 c1)) % m = c2 := by
    rw [← Nat.add_assoc, ← Nat.mod_add_mod, add_wrappingSub second first,
      add_wrappingSub third second]
  have growth := wrappingSub_add first fits
  rw [reached] at growth
  exact growth

/-- What a counter at `b` gains over a list of readings, each against the one before. -/
def steppedGrowth (m : ℕ) : ℕ → List ℕ → ℕ
  | _, [] => 0
  | b, reading :: readings => wrappingSub m reading b + steppedGrowth m reading readings

/-- The readings of a counter at `b` after each gain. -/
def accumulate : ℕ → List ℕ → List ℕ
  | _, [] => []
  | b, gain :: gains => (b + gain) :: accumulate (b + gain) gains

/-- Readings of a counter that has not come to its modulus give back its gains. -/
theorem steppedGrowth_accumulate {m b : ℕ} (gains : List ℕ) (fits : b + gains.sum < m) :
    steppedGrowth m b (accumulate b gains) = gains.sum := by
  induction gains generalizing b with
  | nil => rfl
  | cons gain gains ih =>
    rw [List.sum_cons] at fits
    have step : wrappingSub m (b + gain) b = gain := by
      have wrapped := wrappingSub_add (m := m) (b := b) (x := gain) (by omega) (by omega)
      rwa [Nat.mod_eq_of_lt (by omega)] at wrapped
    have rest := ih (b := b + gain) (by omega)
    rw [accumulate, steppedGrowth, step, rest, List.sum_cons]

/-- Starting value and gains make up the last reading. -/
theorem add_steppedGrowth_mod {m b : ℕ} (readings : List ℕ) (inside : b < m)
    (bounded : ∀ reading ∈ readings, reading < m) :
    (b + steppedGrowth m b readings) % m = (b :: readings).getLast (List.cons_ne_nil b readings) := by
  induction readings generalizing b with
  | nil => exact Nat.mod_eq_of_lt inside
  | cons reading readings ih =>
    have here := bounded reading (List.mem_cons_self ..)
    have rest := ih here fun r member => bounded r (List.mem_cons_of_mem reading member)
    rw [List.getLast_cons (List.cons_ne_nil reading readings), ← rest, steppedGrowth, ← Nat.add_assoc,
      Nat.add_mod, add_wrappingSub here inside, Nat.add_mod_mod]

/-- Gains below the modulus are the one wrapped difference of the last reading to the first,
wherever the readings wrap in between. -/
theorem steppedGrowth_eq_wrappingSub {m b : ℕ} (readings : List ℕ) (inside : b < m)
    (bounded : ∀ reading ∈ readings, reading < m) (fits : steppedGrowth m b readings < m) :
    steppedGrowth m b readings =
      wrappingSub m ((b :: readings).getLast (List.cons_ne_nil b readings)) b := by
  rw [← add_steppedGrowth_mod readings inside bounded, wrappingSub_add inside fits]

end Machine
