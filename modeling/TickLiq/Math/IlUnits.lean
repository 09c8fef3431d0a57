import TickLiq.Math.IlShape

/-!
# Units of impermanent loss

Scaling every price scales both portfolios by the root of the factor; quoting every
price the other way round exchanges the two tokens. The loss is a ratio of the two
portfolios and sees neither.
-/
namespace TickLiq

open Machine

section Units

variable {priceLower priceUpper : ℝ}

theorem clampedRoot_scaled (price : ℝ) {k : ℝ} (scale : 0 < k) :
    clampedRoot (k * priceLower) (k * priceUpper) (k * price) =
      √k * clampedRoot priceLower priceUpper price := by
  simp only [clampedRoot, Real.sqrt_mul scale.le]
  exact clampTo_scaled _ _ _ (Real.sqrt_pos.mpr scale)

theorem vHodl_scaled (priceEntry priceCurrent : ℝ) {k : ℝ} (scale : 0 < k) :
    vHodl (k * priceEntry) (k * priceCurrent) (k * priceLower) (k * priceUpper) =
      √k * vHodl priceEntry priceCurrent priceLower priceUpper := by
  simp only [vHodl, clampedRoot_scaled _ scale]
  rw [Real.sqrt_mul scale.le, Real.sqrt_mul scale.le,
    ← holdingsValue_scaled _ _ _ _ (Real.sqrt_pos.mpr scale).ne', Real.mul_self_sqrt scale.le]

theorem vHodl_self (priceCurrent : ℝ) :
    vHodl priceCurrent priceCurrent priceLower priceUpper = vLp priceCurrent priceLower priceUpper :=
  rfl

section Inverted

variable (lower : 0 < priceLower) (ordered : priceLower < priceUpper)
include lower ordered

theorem clampedRoot_inverted {price : ℝ} (positive : 0 < price) :
    clampedRoot (1 / priceUpper) (1 / priceLower) (1 / price) =
      1 / clampedRoot priceLower priceUpper price := by
  simp only [clampedRoot, Real.sqrt_div' _ (lower.trans ordered).le, Real.sqrt_div' _ lower.le,
    Real.sqrt_div' _ positive.le, Real.sqrt_one]
  exact clampTo_inverted (Real.sqrt_pos.mpr lower) (Real.sqrt_lt_sqrt lower.le ordered).le
    (Real.sqrt_pos.mpr positive)

theorem vHodl_inverted {priceEntry priceCurrent : ℝ} (entry : 0 < priceEntry)
    (current : 0 < priceCurrent) :
    vHodl (1 / priceEntry) (1 / priceCurrent) (1 / priceUpper) (1 / priceLower) =
      vHodl priceEntry priceCurrent priceLower priceUpper / priceCurrent := by
  simp only [vHodl, clampedRoot_inverted lower ordered entry]
  rw [Real.sqrt_div' _ (lower.trans ordered).le, Real.sqrt_div' _ lower.le, Real.sqrt_one]
  exact holdingsValue_inverted _ _ _ current.ne'

end Inverted

variable {priceEntry priceCurrent : ℝ} (entry : 0 < priceEntry) (current : 0 < priceCurrent)
  (lower : 0 < priceLower) (ordered : priceLower < priceUpper)
include entry current lower ordered

theorem computeIl_scaled {k : ℝ} (scale : 0 < k) :
    computeIl (k * priceEntry) (k * priceCurrent) (k * priceLower) (k * priceUpper) =
      computeIl priceEntry priceCurrent priceLower priceUpper := by
  rw [computeIl_eq (mul_pos scale lower) (mul_lt_mul_of_pos_left ordered scale)
    (mul_pos scale entry) (mul_pos scale current), computeIl_eq lower ordered entry current,
    ← vHodl_self, ← vHodl_self, vHodl_scaled _ _ scale, vHodl_scaled _ _ scale,
    mul_div_mul_left _ _ (Real.sqrt_pos.mpr scale).ne']

theorem computeIl_inverted :
    computeIl (1 / priceEntry) (1 / priceCurrent) (1 / priceUpper) (1 / priceLower) =
      computeIl priceEntry priceCurrent priceLower priceUpper := by
  have upper : 0 < priceUpper := lower.trans ordered
  rw [computeIl_eq (one_div_pos.mpr upper) (one_div_lt_one_div_of_lt lower ordered)
    (one_div_pos.mpr entry) (one_div_pos.mpr current), computeIl_eq lower ordered entry current,
    ← vHodl_self, ← vHodl_self, vHodl_inverted lower ordered entry current,
    vHodl_inverted lower ordered current current, div_div_div_cancel_right₀ current.ne']

/-- The loss is the same in every unit of account, in raw as in UI prices, and from either token. -/
theorem computeIl_unit_free :
    (∀ k, 0 < k →
      computeIl (k * priceEntry) (k * priceCurrent) (k * priceLower) (k * priceUpper) =
        computeIl priceEntry priceCurrent priceLower priceUpper) ∧
    (∀ decimalsA decimalsB,
      computeIl (priceEntry * uiFactor decimalsA decimalsB)
          (priceCurrent * uiFactor decimalsA decimalsB)
          (priceLower * uiFactor decimalsA decimalsB)
          (priceUpper * uiFactor decimalsA decimalsB) =
        computeIl priceEntry priceCurrent priceLower priceUpper) ∧
    computeIl (1 / priceEntry) (1 / priceCurrent) (1 / priceUpper) (1 / priceLower) =
      computeIl priceEntry priceCurrent priceLower priceUpper := by
  refine ⟨?_, ?_, computeIl_inverted entry current lower ordered⟩
  · intro k scale
    exact computeIl_scaled entry current lower ordered scale
  · intro decimalsA decimalsB
    simp only [mul_comm _ (uiFactor decimalsA decimalsB)]
    exact computeIl_scaled entry current lower ordered (uiFactor_pos decimalsA decimalsB)

end Units

/-- The loss of a SOL/USDC range at $84, its raw prices a thousandth of the UI ones. -/
theorem computeIl_unit_free_usd :
    (∀ k : ℝ, 0 < k →
      computeIl (k * 85) (k * 84) (k * 75) (k * 95) = computeIl 85 84 75 95) ∧
    (∀ decimalsA decimalsB,
      computeIl (85 * uiFactor decimalsA decimalsB) (84 * uiFactor decimalsA decimalsB)
          (75 * uiFactor decimalsA decimalsB) (95 * uiFactor decimalsA decimalsB) =
        computeIl 85 84 75 95) ∧
    computeIl (1 / 85) (1 / 84) (1 / 95) (1 / 75) = computeIl 85 84 75 95 :=
  computeIl_unit_free (by norm_num) (by norm_num) (by norm_num) (by norm_num)

end TickLiq
