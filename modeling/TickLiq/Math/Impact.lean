import Mathlib.Algebra.Order.WithTop.Untop0
import Mathlib.Analysis.Real.Sqrt
import Mathlib.Tactic.FieldSimp
import Mathlib.Tactic.Linarith

/-!
# Price impact at constant liquidity

Buying token A moves the price up a curve on which `1 / √P` falls by the amount bought
over the liquidity. Prices are reals, and `f64::INFINITY` is the top element above them.
-/
namespace TickLiq

/-- Estimated price impact for a trade. -/
structure PriceImpact where
  targetPct : ℝ
  targetPrice : ℝ
  usdNeeded : ℝ

noncomputable def estimateImpact (currentPrice : ℝ) (liquidity : ℕ) (targetPct : ℝ)
    (isBuy : Bool) : PriceImpact :=
  let l : ℝ := liquidity
  let targetPrice :=
    if isBuy then currentPrice * (1 + targetPct / (100 : ℕ))
    else currentPrice * (1 - targetPct / (100 : ℕ))
  let sqrtP := √currentPrice
  let sqrtTarget := √targetPrice
  let amountA := l * |1 / sqrtP - 1 / sqrtTarget|
  let usdNeeded := amountA * currentPrice
  { targetPct, targetPrice, usdNeeded }

/-! ### The curve -/

/-- The cost of moving the price from `pStart` to `pEnd`, all of it paid at `pStart`. -/
noncomputable def usdFull (l pStart pEnd : ℝ) : ℝ := l * |1 / √pStart - 1 / √pEnd| * pStart

/-- `1 / √P` after a trade of `usd` at price `pStart`. -/
noncomputable def invSqrtTarget (l pStart usd : ℝ) : ℝ := 1 / √pStart - usd / pStart / l

noncomputable def priceAfter (invSqrtTarget : ℝ) : WithTop ℝ :=
  if 0 < invSqrtTarget then ((1 / (invSqrtTarget * invSqrtTarget) : ℝ) : WithTop ℝ) else ⊤

section Curve

variable {l p q : ℝ}

theorem inv_sqrt_pos (positive : 0 < p) : 0 < 1 / √p := by
  have root := Real.sqrt_pos.mpr positive
  positivity

theorem inv_sqrt_lt (positive : 0 < p) (rises : p < q) : 1 / √q < 1 / √p := by
  apply one_div_lt_one_div_of_lt (Real.sqrt_pos.mpr positive)
  exact Real.sqrt_lt_sqrt positive.le rises

theorem inv_sqrt_le (positive : 0 < p) (rises : p ≤ q) : 1 / √q ≤ 1 / √p := by
  apply one_div_le_one_div_of_le (Real.sqrt_pos.mpr positive)
  exact Real.sqrt_le_sqrt rises

theorem usdFull_eq (positive : 0 < p) (rises : p ≤ q) :
    usdFull l p q = l * (1 / √p - 1 / √q) * p := by
  have falls := inv_sqrt_le positive rises
  rw [usdFull, abs_of_nonneg (by linarith)]

theorem usdFull_pos (liquid : 0 < l) (positive : 0 < p) (rises : p < q) : 0 < usdFull l p q := by
  have falls := inv_sqrt_lt positive rises
  rw [usdFull_eq positive rises.le]
  exact mul_pos (mul_pos liquid (by linarith)) positive

/-- Paying for the way to `q` leads to `q`. -/
theorem invSqrtTarget_usdFull (liquid : 0 < l) (positive : 0 < p) (rises : p ≤ q) :
    invSqrtTarget l p (usdFull l p q) = 1 / √q := by
  have bought : l * (1 / √p - 1 / √q) * p / p / l = 1 / √p - 1 / √q := by
    rw [mul_div_cancel_right₀ _ positive.ne', mul_div_cancel_left₀ _ liquid.ne']
  rw [invSqrtTarget, usdFull_eq positive rises, bought]
  ring

theorem invSqrtTarget_lt (liquid : 0 < l) (positive : 0 < p) {a b : ℝ} (more : a < b) :
    invSqrtTarget l p b < invSqrtTarget l p a := by
  have bought : a / p / l < b / p / l :=
    div_lt_div_of_pos_right (div_lt_div_of_pos_right more positive) liquid
  simp only [invSqrtTarget]
  linarith

theorem invSqrtTarget_le (liquid : 0 < l) (positive : 0 < p) {a b : ℝ} (more : a ≤ b) :
    invSqrtTarget l p b ≤ invSqrtTarget l p a := by
  rcases more.lt_or_eq with less | same
  · exact (invSqrtTarget_lt liquid positive less).le
  · rw [same]

theorem invSqrtTarget_zero : invSqrtTarget l p 0 = 1 / √p := by
  simp [invSqrtTarget]

theorem priceAfter_of_pos {inv : ℝ} (positive : 0 < inv) :
    priceAfter inv = ((1 / (inv * inv) : ℝ) : WithTop ℝ) := if_pos positive

theorem priceAfter_inv_sqrt (positive : 0 < p) : priceAfter (1 / √p) = p := by
  have square : 1 / (1 / √p * (1 / √p)) = p := by
    rw [← one_div_mul_one_div, one_div_one_div, Real.mul_self_sqrt positive.le]
  rw [priceAfter_of_pos (inv_sqrt_pos positive), square]

theorem priceAfter_anti {inv inv' : ℝ} (less : inv' ≤ inv) : priceAfter inv ≤ priceAfter inv' := by
  by_cases reaches : 0 < inv'
  · rw [priceAfter_of_pos reaches, priceAfter_of_pos (reaches.trans_le less), WithTop.coe_le_coe]
    exact one_div_le_one_div_of_le (mul_pos reaches reaches)
      (mul_self_le_mul_self reaches.le less)
  · rw [priceAfter, priceAfter, if_neg reaches]
    exact le_top

theorem priceAfter_strictAnti {inv inv' : ℝ} (positive : 0 < inv) (less : inv' < inv) :
    priceAfter inv < priceAfter inv' := by
  rw [priceAfter_of_pos positive]
  by_cases reaches : 0 < inv'
  · rw [priceAfter_of_pos reaches, WithTop.coe_lt_coe]
    exact one_div_lt_one_div_of_lt (mul_pos reaches reaches)
      (mul_self_lt_mul_self reaches.le less)
  · rw [priceAfter, if_neg reaches]
    exact WithTop.coe_lt_top _

end Curve

end TickLiq
