import TickLiq.Machine.Holdings
import TickLiq.Math.Il
import TickLiq.Math.SqrtPrice

/-!
# The shape of impermanent loss

Past its guards `compute_il` compares two portfolios of one range at the current
price: the one held now, and the one held at entry. The first is the cheapest of
the range at that price, which makes the loss a loss, and the farther the price
has run from entry the cheaper it is against the second.
-/
namespace TickLiq

open Machine

/-- `sp0` or `sp1`, by the price taken. -/
noncomputable def clampedRoot (priceLower priceUpper price : ℝ) : ℝ :=
  clampTo √priceLower √priceUpper √price

noncomputable def vHodl (priceEntry priceCurrent priceLower priceUpper : ℝ) : ℝ :=
  holdingsValue √priceLower √priceUpper (clampedRoot priceLower priceUpper priceEntry) priceCurrent

noncomputable def vLp (priceCurrent priceLower priceUpper : ℝ) : ℝ :=
  holdingsValue √priceLower √priceUpper (clampedRoot priceLower priceUpper priceCurrent)
    priceCurrent

section Range

variable {priceEntry priceCurrent priceLower priceUpper : ℝ}

theorem computeIl_guarded (entry : 0 < priceEntry) (current : 0 < priceCurrent)
    (lower : 0 < priceLower) (ordered : priceLower < priceUpper) :
    computeIl priceEntry priceCurrent priceLower priceUpper =
      if vHodl priceEntry priceCurrent priceLower priceUpper ≤ 0 then 0
      else min (vLp priceCurrent priceLower priceUpper /
        vHodl priceEntry priceCurrent priceLower priceUpper - 1) 0 := by
  have roots : √priceLower < √priceUpper := Real.sqrt_lt_sqrt lower.le ordered
  have range : ¬(√priceLower ≤ 0 ∨ √priceUpper ≤ √priceLower) := by
    rw [not_or]
    exact ⟨not_le.mpr (Real.sqrt_pos.mpr lower), not_le.mpr roots⟩
  have prices : ¬(priceEntry < 0 ∨ priceCurrent < 0) := by
    rw [not_or]
    exact ⟨not_lt.mpr entry.le, not_lt.mpr current.le⟩
  simp only [computeIl]
  rw [if_neg entry.ne', if_neg range, if_neg prices]
  rfl

section Clamped

variable (lower : 0 < priceLower) (ordered : priceLower < priceUpper)
include lower ordered

theorem clampedRoot_mem (price : ℝ) :
    √priceLower ≤ clampedRoot priceLower priceUpper price ∧
      clampedRoot priceLower priceUpper price ≤ √priceUpper :=
  ⟨le_clampTo _ (Real.sqrt_lt_sqrt lower.le ordered).le, clampTo_le _ _ _⟩

theorem vHodl_pos (priceEntry : ℝ) (current : 0 < priceCurrent) :
    0 < vHodl priceEntry priceCurrent priceLower priceUpper := by
  obtain ⟨left, right⟩ := clampedRoot_mem lower ordered priceEntry
  exact holdingsValue_pos (Real.sqrt_pos.mpr lower) (Real.sqrt_lt_sqrt lower.le ordered) left right
    current

theorem vLp_nonneg (current : 0 < priceCurrent) : 0 ≤ vLp priceCurrent priceLower priceUpper := by
  obtain ⟨left, right⟩ := clampedRoot_mem lower ordered priceCurrent
  exact holdingsValue_nonneg (Real.sqrt_pos.mpr lower) left right current.le

/-- At the current price no holdings of the range are worth less than those held now. -/
theorem vLp_le_vHodl (priceEntry : ℝ) (current : 0 < priceCurrent) :
    vLp priceCurrent priceLower priceUpper ≤
      vHodl priceEntry priceCurrent priceLower priceUpper := by
  obtain ⟨left, right⟩ := clampedRoot_mem lower ordered priceEntry
  have least := holdingsValue_clampTo_le (Real.sqrt_pos.mpr lower) (Real.sqrt_nonneg priceCurrent)
    left right
  rwa [Real.mul_self_sqrt current.le] at least

theorem vLp_lt_vHodl (current : 0 < priceCurrent)
    (moved : clampedRoot priceLower priceUpper priceEntry ≠
      clampedRoot priceLower priceUpper priceCurrent) :
    vLp priceCurrent priceLower priceUpper <
      vHodl priceEntry priceCurrent priceLower priceUpper := by
  obtain ⟨left, right⟩ := clampedRoot_mem lower ordered priceEntry
  have least := holdingsValue_clampTo_lt (Real.sqrt_pos.mpr lower) (Real.sqrt_nonneg priceCurrent)
    left right moved
  rwa [Real.mul_self_sqrt current.le] at least

/-- Neither the guard on `v_hodl` nor the final `min` ever acts. -/
theorem computeIl_eq (entry : 0 < priceEntry) (current : 0 < priceCurrent) :
    computeIl priceEntry priceCurrent priceLower priceUpper =
      vLp priceCurrent priceLower priceUpper /
        vHodl priceEntry priceCurrent priceLower priceUpper - 1 := by
  have positive := vHodl_pos lower ordered priceEntry current
  have share := (div_le_one positive).mpr (vLp_le_vHodl lower ordered priceEntry current)
  rw [computeIl_guarded entry current lower ordered, if_neg (not_le.mpr positive),
    min_eq_left (sub_nonpos.mpr share)]

end Clamped

/-- Impermanent loss is between all and nothing, and nothing only when no holdings moved. -/
theorem computeIl_true_loss (entry : 0 < priceEntry) (current : 0 < priceCurrent)
    (lower : 0 < priceLower) (ordered : priceLower < priceUpper) :
    0 < vHodl priceEntry priceCurrent priceLower priceUpper ∧
    0 ≤ vLp priceCurrent priceLower priceUpper ∧
    vLp priceCurrent priceLower priceUpper ≤
      vHodl priceEntry priceCurrent priceLower priceUpper ∧
    computeIl priceEntry priceCurrent priceLower priceUpper =
      vLp priceCurrent priceLower priceUpper /
        vHodl priceEntry priceCurrent priceLower priceUpper - 1 ∧
    -1 ≤ computeIl priceEntry priceCurrent priceLower priceUpper ∧
    computeIl priceEntry priceCurrent priceLower priceUpper ≤ 0 ∧
    (computeIl priceEntry priceCurrent priceLower priceUpper = 0 ↔
      clampedRoot priceLower priceUpper priceEntry =
        clampedRoot priceLower priceUpper priceCurrent) := by
  have positive := vHodl_pos lower ordered priceEntry current
  have worth := vLp_nonneg lower ordered current
  have least := vLp_le_vHodl lower ordered priceEntry current
  have value := computeIl_eq lower ordered entry current
  have share := div_nonneg worth positive.le
  have whole := (div_le_one positive).mpr least
  refine ⟨positive, worth, least, value, by linarith, by linarith, ?_⟩
  constructor
  -- a root that has moved costs something
  · intro nothing
    by_contra moved
    have less := (div_lt_one positive).mpr (vLp_lt_vHodl lower ordered current moved)
    linarith
  · intro still
    have same : vLp priceCurrent priceLower priceUpper =
        vHodl priceEntry priceCurrent priceLower priceUpper := by
      simp only [vLp, vHodl, still]
    rw [value, same, div_self positive.ne', sub_self]

/-- A price that doubles inside the range is such a loss. -/
theorem computeIl_true_loss_doubled :
    0 < vHodl 1 2 (1 / 4) 4 ∧ 0 ≤ vLp 2 (1 / 4) 4 ∧ vLp 2 (1 / 4) 4 ≤ vHodl 1 2 (1 / 4) 4 ∧
    computeIl 1 2 (1 / 4) 4 = vLp 2 (1 / 4) 4 / vHodl 1 2 (1 / 4) 4 - 1 ∧
    -1 ≤ computeIl 1 2 (1 / 4) 4 ∧ computeIl 1 2 (1 / 4) 4 ≤ 0 ∧
    (computeIl 1 2 (1 / 4) 4 = 0 ↔ clampedRoot (1 / 4) 4 1 = clampedRoot (1 / 4) 4 2) :=
  computeIl_true_loss (by norm_num) (by norm_num) (by norm_num) (by norm_num)

section Deepening

variable (entry : 0 < priceEntry) (lower : 0 < priceLower) (ordered : priceLower < priceUpper)
include entry lower ordered

/-- Between two prices the loss deepens if holding the earlier portfolio already shows it. -/
theorem computeIl_le_of_turned {price later : ℝ} (current : 0 < price) (next : 0 < later)
    (turned : (firstHolding √priceUpper (clampedRoot priceLower priceUpper price) *
          secondHolding √priceLower (clampedRoot priceLower priceUpper priceEntry) -
        firstHolding √priceUpper (clampedRoot priceLower priceUpper priceEntry) *
          secondHolding √priceLower (clampedRoot priceLower priceUpper price)) *
      (later - price) ≤ 0) :
    computeIl priceEntry later priceLower priceUpper ≤
      computeIl priceEntry price priceLower priceUpper := by
  have before := vHodl_pos lower ordered priceEntry current
  have after := vHodl_pos lower ordered priceEntry next
  rw [computeIl_eq lower ordered entry current, computeIl_eq lower ordered entry next]
  apply sub_le_sub_right
  -- at the later price the portfolio held there is worth no more than the earlier one
  calc vLp later priceLower priceUpper / vHodl priceEntry later priceLower priceUpper
      ≤ vHodl price later priceLower priceUpper / vHodl priceEntry later priceLower priceUpper :=
        div_le_div_of_nonneg_right (vLp_le_vHodl lower ordered price next) after.le
    _ ≤ vHodl price price priceLower priceUpper / vHodl priceEntry price priceLower priceUpper :=
        holdingsValue_ratio_le before after turned

theorem computeIl_deepens_above {price later : ℝ} (above : priceEntry ≤ price)
    (rises : price ≤ later) :
    computeIl priceEntry later priceLower priceUpper ≤
      computeIl priceEntry price priceLower priceUpper := by
  have current : 0 < price := entry.trans_le above
  apply computeIl_le_of_turned entry lower ordered current (current.trans_le rises)
  have cross := holdings_cross_le (Real.sqrt_pos.mpr lower)
    (clampedRoot_mem lower ordered priceEntry).1 (clampedRoot_mem lower ordered price).2
    (clampTo_mono _ _ (Real.sqrt_le_sqrt above))
  exact mul_nonpos_of_nonpos_of_nonneg (sub_nonpos.mpr cross) (sub_nonneg.mpr rises)

theorem computeIl_deepens_below {price later : ℝ} (below : price ≤ priceEntry)
    (falls : later ≤ price) (next : 0 < later) :
    computeIl priceEntry later priceLower priceUpper ≤
      computeIl priceEntry price priceLower priceUpper := by
  have current : 0 < price := next.trans_le falls
  apply computeIl_le_of_turned entry lower ordered current next
  have cross := holdings_cross_le (Real.sqrt_pos.mpr lower)
    (clampedRoot_mem lower ordered price).1 (clampedRoot_mem lower ordered priceEntry).2
    (clampTo_mono _ _ (Real.sqrt_le_sqrt below))
  exact mul_nonpos_of_nonneg_of_nonpos (sub_nonneg.mpr cross) (sub_nonpos.mpr falls)

/-- The loss deepens as the price runs from entry, on either side and across the bounds. -/
theorem computeIl_deepens :
    (∀ price later, priceEntry ≤ price → price ≤ later →
      computeIl priceEntry later priceLower priceUpper ≤
        computeIl priceEntry price priceLower priceUpper) ∧
    (∀ price later, 0 < later → later ≤ price → price ≤ priceEntry →
      computeIl priceEntry later priceLower priceUpper ≤
        computeIl priceEntry price priceLower priceUpper) := by
  constructor
  · intro price later above rises
    exact computeIl_deepens_above entry lower ordered above rises
  · intro price later next falls below
    exact computeIl_deepens_below entry lower ordered below falls next

end Deepening

/-- From an entry below the range the loss deepens through both bounds. -/
theorem computeIl_deepens_from_below :
    (∀ price later : ℝ, 1 ≤ price → price ≤ later →
      computeIl 1 later 4 9 ≤ computeIl 1 price 4 9) ∧
    (∀ price later : ℝ, 0 < later → later ≤ price → price ≤ 1 →
      computeIl 1 later 4 9 ≤ computeIl 1 price 4 9) :=
  computeIl_deepens (by norm_num) (by norm_num) (by norm_num)

end Range

end TickLiq
