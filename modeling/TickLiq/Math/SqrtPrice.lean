import Mathlib.Algebra.Order.Floor.Semiring
import Mathlib.Analysis.Real.Sqrt

/-!
# Q64.64 sqrt prices

Floats are read as exact reals, so both conversions are noncomputable.
-/
namespace TickLiq

/-- `TWO_POW_64` -/
noncomputable def twoPow64 : ℝ := (2 ^ 64 : ℕ)

noncomputable def sqrtQ64ToPrice (sqrtPriceQ64 : ℕ) : ℝ :=
  let intPart : ℕ := sqrtPriceQ64 / 2 ^ 64
  let fracPart : ℕ := sqrtPriceQ64 % 2 ^ 64
  let sqrtP : ℝ := intPart + fracPart / twoPow64
  sqrtP * sqrtP

noncomputable def priceToSqrtQ64 (rawPrice : ℝ) : ℕ :=
  if rawPrice ≤ 0 then 0
  else
    let v := √rawPrice * twoPow64
    -- `u128::MAX`; the cast truncates towards zero
    if (2 ^ 128 - 1 : ℕ) ≤ v then 2 ^ 128 - 1 else ⌊v⌋₊

/-- `10f64.powi(decimals_a as i32 - decimals_b as i32)`, from raw to UI prices. -/
noncomputable def uiFactor (decimalsA decimalsB : ℕ) : ℝ :=
  ((10 : ℕ) : ℝ) ^ ((decimalsA : ℤ) - decimalsB)

noncomputable def sqrtQ64ToUiPrice (sqrtPriceQ64 decimalsA decimalsB : ℕ) : ℝ :=
  sqrtQ64ToPrice sqrtPriceQ64 * uiFactor decimalsA decimalsB

/-- `10f64.powi(decimals as i32)`, from raw to UI amounts. -/
noncomputable def tokenScale (decimals : ℕ) : ℝ := (10 ^ decimals : ℕ)

theorem twoPow64_eq : twoPow64 = 2 ^ 64 := by
  simp only [twoPow64]
  norm_num

theorem tokenScale_eq (decimals : ℕ) : tokenScale decimals = 10 ^ decimals := by
  simp only [tokenScale]
  push_cast
  rfl

theorem twoPow64_pos : 0 < twoPow64 := by
  rw [twoPow64_eq]
  positivity

theorem tokenScale_pos (decimals : ℕ) : 0 < tokenScale decimals := by
  rw [tokenScale_eq]
  positivity

theorem sqrtQ64ToPrice_eq (sqrtPriceQ64 : ℕ) :
    sqrtQ64ToPrice sqrtPriceQ64 = (sqrtPriceQ64 / twoPow64) * (sqrtPriceQ64 / twoPow64) := by
  have parts : (sqrtPriceQ64 : ℝ) =
      (2 ^ 64 : ℕ) * (sqrtPriceQ64 / 2 ^ 64 : ℕ) + (sqrtPriceQ64 % 2 ^ 64 : ℕ) := by
    rw [← Nat.cast_mul, ← Nat.cast_add, Nat.div_add_mod]
  have sum : ((sqrtPriceQ64 / 2 ^ 64 : ℕ) : ℝ) + (sqrtPriceQ64 % 2 ^ 64 : ℕ) / twoPow64 =
      sqrtPriceQ64 / twoPow64 := by
    rw [eq_div_iff twoPow64_pos.ne', add_mul, div_mul_cancel₀ _ twoPow64_pos.ne', parts, mul_comm]
    rfl
  simp only [sqrtQ64ToPrice, sum]

theorem uiFactor_pos (decimalsA decimalsB : ℕ) : 0 < uiFactor decimalsA decimalsB := by
  simp only [uiFactor]
  exact zpow_pos (Nat.cast_pos.mpr (by decide)) _

theorem uiFactor_self (decimals : ℕ) : uiFactor decimals decimals = 1 := by
  simp only [uiFactor]
  rw [sub_self, zpow_zero]

/-- An exact sqrt price survives the way to its price and back. -/
theorem priceToSqrtQ64_sqrtQ64ToPrice {sqrtPriceQ64 : ℕ} (positive : 0 < sqrtPriceQ64)
    (fits : sqrtPriceQ64 < 2 ^ 128) :
    priceToSqrtQ64 (sqrtQ64ToPrice sqrtPriceQ64) = sqrtPriceQ64 := by
  have root : (0 : ℝ) < sqrtPriceQ64 / twoPow64 :=
    div_pos (Nat.cast_pos.mpr positive) twoPow64_pos
  simp only [priceToSqrtQ64, sqrtQ64ToPrice_eq]
  rw [if_neg (not_le.mpr (mul_pos root root)), Real.sqrt_mul_self root.le,
    div_mul_cancel₀ _ twoPow64_pos.ne', Nat.floor_natCast]
  split
  next most =>
    have most := Nat.cast_le.mp most
    omega
  next => rfl

/-! ### The two conversions as a Galois pair -/

theorem sqrtQ64ToPrice_eq_sq (sqrtPriceQ64 : ℕ) :
    sqrtQ64ToPrice sqrtPriceQ64 = (sqrtPriceQ64 / twoPow64) ^ 2 := by
  rw [sqrtQ64ToPrice_eq, sq]

theorem sqrtQ64ToPrice_mono : Monotone sqrtQ64ToPrice := by
  intro q r below
  rw [sqrtQ64ToPrice_eq_sq, sqrtQ64ToPrice_eq_sq]
  have roots : (q : ℝ) / twoPow64 ≤ r / twoPow64 :=
    div_le_div_of_nonneg_right (Nat.cast_le.mpr below) twoPow64_pos.le
  exact pow_le_pow_left₀ (div_nonneg q.cast_nonneg twoPow64_pos.le) roots 2

/-- Below the positive prices the result is zero, and the saturation only lowers it. -/
theorem priceToSqrtQ64_eq (rawPrice : ℝ) :
    priceToSqrtQ64 rawPrice = min (2 ^ 128 - 1) ⌊√rawPrice * twoPow64⌋₊ := by
  unfold priceToSqrtQ64
  split
  next nonpositive =>
    rw [Real.sqrt_eq_zero_of_nonpos nonpositive, zero_mul, Nat.floor_zero, Nat.min_zero]
  next =>
    simp only
    split
    next large => rw [min_eq_left (Nat.le_floor large)]
    next small =>
      have floor : ⌊√rawPrice * twoPow64⌋₊ < 2 ^ 128 - 1 :=
        (Nat.floor_lt (mul_nonneg (Real.sqrt_nonneg _) twoPow64_pos.le)).mpr (not_le.mp small)
      rw [min_eq_right floor.le]

theorem priceToSqrtQ64_mono : Monotone priceToSqrtQ64 := by
  intro p q below
  rw [priceToSqrtQ64_eq, priceToSqrtQ64_eq]
  have roots := mul_le_mul_of_nonneg_right (Real.sqrt_le_sqrt below) twoPow64_pos.le
  exact min_le_min le_rfl (Nat.floor_mono roots)

theorem sqrtQ64ToPrice_le_iff {p : ℝ} (nonneg : 0 ≤ p) {q : ℕ} (fits : q < 2 ^ 128) :
    sqrtQ64ToPrice q ≤ p ↔ q ≤ priceToSqrtQ64 p := by
  have root : (0 : ℝ) ≤ q / twoPow64 := div_nonneg q.cast_nonneg twoPow64_pos.le
  have product : 0 ≤ √p * twoPow64 := mul_nonneg (Real.sqrt_nonneg p) twoPow64_pos.le
  rw [sqrtQ64ToPrice_eq_sq, ← Real.le_sqrt root nonneg, div_le_iff₀ twoPow64_pos,
    priceToSqrtQ64_eq, ← Nat.le_floor_iff product]
  omega

theorem priceToSqrtQ64_lt (p : ℝ) : priceToSqrtQ64 p < 2 ^ 128 := by
  rw [priceToSqrtQ64_eq]
  omega

theorem priceToSqrtQ64_greatest {p : ℝ} (nonneg : 0 ≤ p) :
    IsGreatest {q : ℕ | q < 2 ^ 128 ∧ sqrtQ64ToPrice q ≤ p} (priceToSqrtQ64 p) := by
  have fits := priceToSqrtQ64_lt p
  refine ⟨⟨fits, (sqrtQ64ToPrice_le_iff nonneg fits).mpr le_rfl⟩, ?_⟩
  rintro q ⟨inside, below⟩
  exact (sqrtQ64ToPrice_le_iff nonneg inside).mp below

theorem priceToSqrtQ64_saturates {p : ℝ} (large : 2 ^ 128 ≤ p) :
    priceToSqrtQ64 p = 2 ^ 128 - 1 := by
  have root : (2 : ℝ) ^ 64 ≤ √p := by
    apply Real.le_sqrt_of_sq_le
    rw [← pow_mul]
    exact large
  have product : ((2 ^ 128 - 1 : ℕ) : ℝ) ≤ √p * twoPow64 := by
    calc ((2 ^ 128 - 1 : ℕ) : ℝ) ≤ 2 ^ 64 * 2 ^ 64 := by norm_num
      _ ≤ √p * twoPow64 := by
        rw [twoPow64_eq]
        exact mul_le_mul_of_nonneg_right root (by positivity)
  rw [priceToSqrtQ64_eq, min_eq_left (Nat.le_floor product)]

/-- Every exact sqrt price comes back; every other price goes to the last one below it. -/
theorem sqrtPrice_galois :
    (∀ q < 2 ^ 128, priceToSqrtQ64 (sqrtQ64ToPrice q) = q) ∧
      (∀ p : ℝ, 0 ≤ p → p < 2 ^ 128 →
        IsGreatest {q : ℕ | q < 2 ^ 128 ∧ sqrtQ64ToPrice q ≤ p} (priceToSqrtQ64 p)) ∧
      Monotone sqrtQ64ToPrice ∧ Monotone priceToSqrtQ64 ∧
      (∀ p : ℝ, 2 ^ 128 ≤ p → priceToSqrtQ64 p = 2 ^ 128 - 1) ∧
      ∀ p ≤ 0, priceToSqrtQ64 p = 0 := by
  refine ⟨?_, fun p nonneg _ => priceToSqrtQ64_greatest nonneg, sqrtQ64ToPrice_mono,
    priceToSqrtQ64_mono, fun p => priceToSqrtQ64_saturates, fun p nonpositive => if_pos nonpositive⟩
  intro q fits
  rcases q.eq_zero_or_pos with zero | positive
  · subst zero
    simp [priceToSqrtQ64, sqrtQ64ToPrice]
  · exact priceToSqrtQ64_sqrtQ64ToPrice positive fits

end TickLiq
