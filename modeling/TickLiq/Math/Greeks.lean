import Mathlib.Analysis.Calculus.Deriv.Add
import Mathlib.Analysis.Calculus.Deriv.Inv
import Mathlib.Analysis.SpecialFunctions.Sqrt
import Mathlib.Topology.Algebra.Module.ModuleTopology
import TickLiq.Machine.Holdings

/-!
# Position Greeks

The value of a position in its range has the token A it holds as its first derivative.
What is called delta is the derivative of that: the second one.
-/
namespace TickLiq

open Machine (firstHolding secondHolding holdingsValue)

structure Greeks where
  delta : ℝ
  gamma : ℝ

noncomputable def computeGreeksFromPrices (liquidity : ℕ) (price priceLower priceUpper : ℝ) :
    Greeks :=
  if price < priceLower ∨ priceUpper < price then { delta := 0, gamma := 0 }
  else
    let sqrtP := √price
    let l : ℝ := liquidity
    let delta := -l / ((2 : ℕ) * sqrtP * price)
    let gamma := (3 : ℕ) * l / ((4 : ℕ) * price * price * sqrtP)
    { delta, gamma }

/-- The value at `price` of liquidity `l` between the bounds. -/
noncomputable def rangeValue (l priceLower priceUpper price : ℝ) : ℝ :=
  l * holdingsValue √priceLower √priceUpper √price price

/-- The token A that it holds at `price`. -/
noncomputable def rangeHolding (l priceUpper price : ℝ) : ℝ :=
  l * firstHolding √priceUpper √price

section Derivatives

variable {price : ℝ} (l priceLower priceUpper : ℝ)

theorem rangeValue_eq (positive : 0 < price) : rangeValue l priceLower priceUpper price =
    l * (2 * √price - price * (1 / √priceUpper) - √priceLower) := by
  have root := Real.sqrt_pos.mpr positive
  have product : 1 / √price * price = √price := by
    rw [one_div_mul_eq_div, Real.div_sqrt]
  simp only [rangeValue, holdingsValue, firstHolding, secondHolding]
  rw [sub_mul, product]
  ring

theorem hasDerivAt_rangeValue (positive : 0 < price) :
    HasDerivAt (rangeValue l priceLower priceUpper) (rangeHolding l priceUpper price) price := by
  have root := Real.sqrt_pos.mpr positive
  have double := (Real.hasDerivAt_sqrt positive.ne').const_mul 2
  have linear := (hasDerivAt_id' price).mul_const (1 / √priceUpper)
  have closed : HasDerivAt (fun p => l * (2 * √p - p * (1 / √priceUpper) - √priceLower))
      (l * (2 * (1 / (2 * √price)) - 1 * (1 / √priceUpper))) price :=
    HasDerivAt.const_mul l (HasDerivAt.sub_const √priceLower (double.sub linear))
  have slope : l * (2 * (1 / (2 * √price)) - 1 * (1 / √priceUpper)) =
      rangeHolding l priceUpper price := by
    simp only [rangeHolding, firstHolding]
    field_simp
  rw [slope] at closed
  -- the closed form holds for positive prices, and so around this one
  apply closed.congr_of_eventuallyEq
  filter_upwards [eventually_gt_nhds positive] with p above
  exact rangeValue_eq l priceLower priceUpper above

theorem hasDerivAt_rangeHolding (positive : 0 < price) :
    HasDerivAt (rangeHolding l priceUpper) (-l / (2 * √price * price)) price := by
  have root := Real.sqrt_pos.mpr positive
  have inverse : HasDerivAt (fun p => l * ((√p)⁻¹ - (√priceUpper)⁻¹))
      (l * (-(1 / (2 * √price)) / √price ^ 2)) price :=
    HasDerivAt.const_mul l (HasDerivAt.sub_const _
      ((Real.hasDerivAt_sqrt positive.ne').inv root.ne'))
  have slope : l * (-(1 / (2 * √price)) / √price ^ 2) = -l / (2 * √price * price) := by
    rw [Real.sq_sqrt positive.le]
    field_simp
  rw [slope] at inverse
  have same : rangeHolding l priceUpper = fun p => l * ((√p)⁻¹ - (√priceUpper)⁻¹) := by
    funext p
    simp only [rangeHolding, firstHolding, one_div]
  rw [same]
  exact inverse

theorem hasDerivAt_delta (positive : 0 < price) :
    HasDerivAt (fun p => -l / (2 * √p * p)) (3 * l / (4 * price * price * √price)) price := by
  have root := Real.sqrt_pos.mpr positive
  have below : HasDerivAt (fun p => 2 * √p * p)
      (2 * (1 / (2 * √price)) * price + 2 * √price * 1) price :=
    ((Real.hasDerivAt_sqrt positive.ne').const_mul 2).mul (hasDerivAt_id' price)
  have quotient := (hasDerivAt_const price (-l)).div below (by positivity)
  have slope : (0 * (2 * √price * price) -
      -l * (2 * (1 / (2 * √price)) * price + 2 * √price * 1)) / (2 * √price * price) ^ 2 =
      3 * l / (4 * price * price * √price) := by
    -- an identity in the root of the price
    have square : price = √price * √price := (Real.mul_self_sqrt positive.le).symm
    clear below quotient
    generalize √price = s at root square ⊢
    subst square
    field_simp
    ring
  exact slope ▸ quotient

end Derivatives

section InRange

variable {liquidity : ℕ} {price priceLower priceUpper : ℝ}

theorem computeGreeks_inside (left : priceLower ≤ price) (right : price ≤ priceUpper) :
    computeGreeksFromPrices liquidity price priceLower priceUpper =
      { delta := -liquidity / (2 * √price * price)
        gamma := 3 * liquidity / (4 * price * price * √price) } := by
  have inside : ¬(price < priceLower ∨ priceUpper < price) := by
    rw [not_or]
    exact ⟨not_lt.mpr left, not_lt.mpr right⟩
  simp only [computeGreeksFromPrices, if_neg inside, Nat.cast_ofNat]

theorem rangeHolding_pos (liquid : 0 < liquidity) (positive : 0 < price)
    (right : price < priceUpper) : 0 < rangeHolding liquidity priceUpper price := by
  have root := Real.sqrt_pos.mpr positive
  have below := Real.sqrt_lt_sqrt positive.le right
  exact mul_pos (Nat.cast_pos.mpr liquid) (sub_pos.mpr (one_div_lt_one_div_of_lt root below))

theorem delta_neg (liquid : 0 < liquidity) (positive : 0 < price) (left : priceLower ≤ price)
    (right : price ≤ priceUpper) :
    (computeGreeksFromPrices liquidity price priceLower priceUpper).delta < 0 := by
  have root := Real.sqrt_pos.mpr positive
  have some : (0 : ℝ) < liquidity := Nat.cast_pos.mpr liquid
  rw [computeGreeks_inside left right]
  exact div_neg_of_neg_of_pos (neg_lt_zero.mpr some) (by positivity)

/-- The position gains with every rise of the price up to its upper bound. -/
theorem rangeValue_lt {later : ℝ} (liquid : 0 < liquidity) (positive : 0 < price)
    (rises : price < later) (right : later ≤ priceUpper) :
    rangeValue liquidity priceLower priceUpper price <
      rangeValue liquidity priceLower priceUpper later := by
  have next := positive.trans rises
  have root := Real.sqrt_pos.mpr positive
  have more := Real.sqrt_lt_sqrt positive.le rises
  have most := Real.sqrt_le_sqrt right
  have bound : 0 < √priceUpper := (root.trans more).trans_le most
  -- both roots are at most the upper one, and the lower of the two is strictly below it
  have slack : (√price + √later) * (1 / √priceUpper) < 2 := by
    rw [mul_one_div, div_lt_iff₀ bound]
    linarith
  have gain : 0 < (√later - √price) * (2 - (√price + √later) * (1 / √priceUpper)) :=
    mul_pos (sub_pos.mpr more) (sub_pos.mpr slack)
  have difference : (2 * √later - later * (1 / √priceUpper) - √priceLower) -
      (2 * √price - price * (1 / √priceUpper) - √priceLower) =
      (√later - √price) * (2 - (√price + √later) * (1 / √priceUpper)) := by
    have first : price = √price * √price := (Real.mul_self_sqrt positive.le).symm
    have second : later = √later * √later := (Real.mul_self_sqrt next.le).symm
    calc _ = 2 * (√later - √price) - (later - price) * (1 / √priceUpper) := by ring
      _ = 2 * (√later - √price) -
          (√later * √later - √price * √price) * (1 / √priceUpper) := by rw [← first, ← second]
      _ = _ := by ring
  rw [rangeValue_eq _ _ _ positive, rangeValue_eq _ _ _ next]
  apply mul_lt_mul_of_pos_left _ (Nat.cast_pos.mpr liquid)
  linarith

/-- A negative number is not the slope of a value that rises. -/
theorem delta_not_derivative (liquid : 0 < liquidity) (positive : 0 < price)
    (left : priceLower ≤ price) (right : price < priceUpper) :
    ¬HasDerivAt (rangeValue liquidity priceLower priceUpper)
      (computeGreeksFromPrices liquidity price priceLower priceUpper).delta price := by
  intro derivative
  have same := derivative.unique (hasDerivAt_rangeValue liquidity priceLower priceUpper positive)
  have negative := delta_neg liquid positive left right.le
  have held := rangeHolding_pos liquid positive right
  linarith

/-- Delta is nowhere the derivative of the position's value: it is negative where every rise of
the price adds to the value, and is the derivative of the token A held, the second derivative.
Gamma is the derivative of delta. -/
theorem greeks_not_derivatives (liquid : 0 < liquidity) (lower : 0 < priceLower)
    (left : priceLower < price) (right : price < priceUpper) :
    ¬HasDerivAt (rangeValue liquidity priceLower priceUpper)
        (computeGreeksFromPrices liquidity price priceLower priceUpper).delta price ∧
      (computeGreeksFromPrices liquidity price priceLower priceUpper).delta < 0 ∧
      (∀ later, price < later → later ≤ priceUpper →
        rangeValue liquidity priceLower priceUpper price <
          rangeValue liquidity priceLower priceUpper later) ∧
      HasDerivAt (rangeValue liquidity priceLower priceUpper)
        (rangeHolding liquidity priceUpper price) price ∧
      HasDerivAt (rangeHolding liquidity priceUpper)
        (computeGreeksFromPrices liquidity price priceLower priceUpper).delta price ∧
      HasDerivAt (fun p => (computeGreeksFromPrices liquidity p priceLower priceUpper).delta)
        (computeGreeksFromPrices liquidity price priceLower priceUpper).gamma price := by
  have positive := lower.trans left
  refine ⟨delta_not_derivative liquid positive left.le right,
    delta_neg liquid positive left.le right.le,
    fun later rises below => rangeValue_lt liquid positive rises below,
    hasDerivAt_rangeValue liquidity priceLower priceUpper positive, ?_, ?_⟩
  · rw [computeGreeks_inside left.le right.le]
    exact hasDerivAt_rangeHolding _ _ positive
  · rw [computeGreeks_inside left.le right.le]
    -- outside the range delta is zero, so the closed form is only that of the prices around
    apply (hasDerivAt_delta _ positive).congr_of_eventuallyEq
    filter_upwards [eventually_gt_nhds left, eventually_lt_nhds right] with p above below
    rw [computeGreeks_inside above.le below.le]

end InRange

/-- A position worth more at 101 than at 100, with a negative delta at 100. -/
theorem greeks_not_derivatives_hundred :
    ¬HasDerivAt (rangeValue (1000000 : ℕ) 80 120)
        (computeGreeksFromPrices 1000000 100 80 120).delta 100 ∧
      rangeValue (1000000 : ℕ) 80 120 100 < rangeValue (1000000 : ℕ) 80 120 101 := by
  obtain ⟨wrong, _, rises, _⟩ := greeks_not_derivatives (by norm_num : 0 < 1000000)
    (by norm_num : (0 : ℝ) < 80) (by norm_num : (80 : ℝ) < 100) (by norm_num : (100 : ℝ) < 120)
  exact ⟨wrong, rises 101 (by norm_num) (by norm_num)⟩

/-- The derivative is the token A held, which is positive. -/
theorem delta_wrong_sign :
    ¬HasDerivAt (rangeValue (1000000 : ℕ) 80 120)
      (computeGreeksFromPrices 1000000 100 80 120).delta 100 := by
  apply delta_not_derivative
  all_goals norm_num

end TickLiq
