import TickLiq.Analytics.InRange

/-!
# Impermanent loss in dollars

The fraction is relative to what holding would be worth and is multiplied by what the
position is worth, so the dollar figure is the true loss scaled down by their ratio.
-/
namespace TickLiq

open Machine (firstHolding secondHolding holdingsValue clampTo bind_ok_iff)

/-- `computed_position_value` of the watch loop. -/
noncomputable def Watch.positionValue (amountsResult : Except String TokenAmounts)
    (decimalsA decimalsB : ℕ) (priceCurrent : ℝ) : ℝ :=
  match amountsResult with
  | .ok a => a.amountA / tokenScale decimalsA * priceCurrent + a.amountB / tokenScale decimalsB
  | .error _ => 0

/-- `computed_il_usd` of the watch loop, at the price of the exchange or of the chain. -/
noncomputable def Watch.ilUsd (core : WhirlpoolsCore) (pos : WhirlpoolPosition)
    (pool : WhirlpoolPool) (decimalsA decimalsB : ℕ) (entryPrice priceCurrent : ℝ) : ℝ :=
  let amountsResult := computeTokenAmounts core pos.liquidity pool.sqrtPrice pos.tickLowerIndex
    pos.tickUpperIndex
  let computedPositionValue := positionValue amountsResult decimalsA decimalsB priceCurrent
  let priceLower := sqrtQ64ToUiPrice (core.tickIndexToSqrtPrice pos.tickLowerIndex)
    decimalsA decimalsB
  let priceUpper := sqrtQ64ToUiPrice (core.tickIndexToSqrtPrice pos.tickUpperIndex)
    decimalsA decimalsB
  let ilFraction := computeIl entryPrice priceCurrent priceLower priceUpper
  ilFraction * computedPositionValue

/-- The amounts are those of liquidity `l` in the range at `price`. -/
structure HoldsRange (amounts : TokenAmounts) (decimalsA decimalsB : ℕ)
    (l priceLower priceUpper price : ℝ) : Prop where
  first : amounts.amountA / tokenScale decimalsA =
    l * firstHolding √priceUpper (clampedRoot priceLower priceUpper price)
  second : amounts.amountB / tokenScale decimalsB =
    l * secondHolding √priceLower (clampedRoot priceLower priceUpper price)

theorem HoldsRange.value {amounts : TokenAmounts} {decimalsA decimalsB : ℕ}
    {l priceLower priceUpper price : ℝ}
    (holds : HoldsRange amounts decimalsA decimalsB l priceLower priceUpper price) :
    amounts.amountA / tokenScale decimalsA * price + amounts.amountB / tokenScale decimalsB =
      l * vLp price priceLower priceUpper := by
  rw [holds.first, holds.second, vLp, holdingsValue]
  ring

/-- The position's worth less that of the entry amounts, both at the current price. -/
noncomputable def gainOverHolding (l priceEntry priceCurrent priceLower priceUpper : ℝ) : ℝ :=
  l * (vLp priceCurrent priceLower priceUpper -
    vHodl priceEntry priceCurrent priceLower priceUpper)

section Dollars

variable {l priceEntry priceCurrent priceLower priceUpper : ℝ}
  (current : 0 < priceCurrent) (lower : 0 < priceLower) (ordered : priceLower < priceUpper)
include current lower ordered

/-- The dollar figure is the gain over holding, times the position's worth over the holdings'. -/
theorem ilUsd_scaled (l : ℝ) (entry : 0 < priceEntry) :
    computeIl priceEntry priceCurrent priceLower priceUpper *
        (l * vLp priceCurrent priceLower priceUpper) =
      vLp priceCurrent priceLower priceUpper / vHodl priceEntry priceCurrent priceLower priceUpper *
        gainOverHolding l priceEntry priceCurrent priceLower priceUpper := by
  have positive := vHodl_pos lower ordered priceEntry current
  -- the fraction divides by what holding is worth
  rw [computeIl_eq lower ordered entry current, gainOverHolding]
  field_simp

theorem vLp_eq_vHodl_iff : vLp priceCurrent priceLower priceUpper =
      vHodl priceEntry priceCurrent priceLower priceUpper ↔
    clampedRoot priceLower priceUpper priceEntry =
      clampedRoot priceLower priceUpper priceCurrent := by
  constructor
  · intro same
    by_contra moved
    exact absurd same (vLp_lt_vHodl lower ordered current moved).ne
  · intro still
    simp only [vLp, vHodl, still]

/-- The figure is the gain over holding only when no holdings moved. -/
theorem ilUsd_eq_iff (liquid : 0 < l) :
    computeIl priceEntry priceCurrent priceLower priceUpper *
        (l * vLp priceCurrent priceLower priceUpper) =
      gainOverHolding l priceEntry priceCurrent priceLower priceUpper ↔
    clampedRoot priceLower priceUpper priceEntry =
      clampedRoot priceLower priceUpper priceCurrent := by
  have positive := vHodl_pos lower ordered priceEntry current
  rw [← vLp_eq_vHodl_iff current lower ordered]
  rcases le_or_gt priceEntry 0 with unknown | entry
  · -- without an entry price the fraction is zero
    have none : computeIl priceEntry priceCurrent priceLower priceUpper = 0 := by
      unfold computeIl
      rcases unknown.lt_or_eq with negative | zero
      · simp [negative]
      · simp [zero]
    rw [none, zero_mul, gainOverHolding]
    constructor
    · intro nothing
      rcases mul_eq_zero.mp nothing.symm with dry | same
      · exact absurd dry liquid.ne'
      · exact sub_eq_zero.mp same
    · intro same
      rw [same, sub_self, mul_zero]
  · rw [ilUsd_scaled current lower ordered l entry, gainOverHolding]
    constructor
    · intro equal
      -- a gain that is not zero can be cancelled, and leaves a ratio of one
      by_contra moved
      have gap : l * (vLp priceCurrent priceLower priceUpper -
          vHodl priceEntry priceCurrent priceLower priceUpper) ≠ 0 :=
        mul_ne_zero liquid.ne' (sub_ne_zero.mpr moved)
      have whole := mul_right_cancel₀ gap (equal.trans (one_mul _).symm)
      exact moved ((div_eq_one_iff_eq positive.ne').mp whole)
    · intro same
      rw [same, sub_self, mul_zero, mul_zero]

end Dollars

section Reported

variable {core : WhirlpoolsCore} {source : OrcaSource} {mint : String} {entryFlag : Option ℝ}

theorem computeOrcaPnl_ilUsd {pnl : OrcaPnl} {priceEntry : ℝ}
    (returned : computeOrcaPnl core source mint entryFlag = .ok pnl)
    (resolved : resolveEntryPrice source mint entryFlag = .ok priceEntry) :
    pnl.ilUsd = computeIl priceEntry pnl.priceCurrent pnl.priceLower pnl.priceUpper *
        (pnl.amounts.amountA / tokenScale pnl.decimalsA * pnl.priceCurrent +
          pnl.amounts.amountB / tokenScale pnl.decimalsB) ∧
      pnl.netPnlUsd = pnl.feesUsd + pnl.ilUsd := by
  obtain ⟨⟨pos, pool⟩, _, returned⟩ := (bind_ok_iff ..).mp returned
  obtain ⟨decimalsA, _, returned⟩ := (bind_ok_iff ..).mp returned
  obtain ⟨decimalsB, _, returned⟩ := (bind_ok_iff ..).mp returned
  obtain ⟨amounts, _, returned⟩ := (bind_ok_iff ..).mp returned
  obtain ⟨entry, same, returned⟩ := (bind_ok_iff ..).mp returned
  rw [resolved] at same
  cases same
  cases returned
  exact ⟨rfl, rfl⟩

variable (core) in
/-- Both commands report the gain over holding exactly when the prices at entry and now clamp to
the same point of the range. -/
theorem dollar_il_iff :
    (∀ source mint entryFlag priceEntry pnl l,
      computeOrcaPnl core source mint entryFlag = .ok pnl →
      resolveEntryPrice source mint entryFlag = .ok priceEntry →
      0 < pnl.priceCurrent → 0 < pnl.priceLower → pnl.priceLower < pnl.priceUpper → 0 < l →
      HoldsRange pnl.amounts pnl.decimalsA pnl.decimalsB l pnl.priceLower pnl.priceUpper
        pnl.priceCurrent →
      (pnl.ilUsd = gainOverHolding l priceEntry pnl.priceCurrent pnl.priceLower pnl.priceUpper ∧
          pnl.netPnlUsd = pnl.feesUsd +
            gainOverHolding l priceEntry pnl.priceCurrent pnl.priceLower pnl.priceUpper ↔
        clampedRoot pnl.priceLower pnl.priceUpper priceEntry =
          clampedRoot pnl.priceLower pnl.priceUpper pnl.priceCurrent)) ∧
    ∀ pos pool decimalsA decimalsB amounts priceEntry priceCurrent priceLower priceUpper l,
      computeTokenAmounts core pos.liquidity pool.sqrtPrice pos.tickLowerIndex
        pos.tickUpperIndex = .ok amounts →
      priceLower = sqrtQ64ToUiPrice (core.tickIndexToSqrtPrice pos.tickLowerIndex)
        decimalsA decimalsB →
      priceUpper = sqrtQ64ToUiPrice (core.tickIndexToSqrtPrice pos.tickUpperIndex)
        decimalsA decimalsB →
      0 < priceCurrent → 0 < priceLower → priceLower < priceUpper → 0 < l →
      HoldsRange amounts decimalsA decimalsB l priceLower priceUpper priceCurrent →
      (Watch.ilUsd core pos pool decimalsA decimalsB priceEntry priceCurrent =
          gainOverHolding l priceEntry priceCurrent priceLower priceUpper ↔
        clampedRoot priceLower priceUpper priceEntry =
          clampedRoot priceLower priceUpper priceCurrent) := by
  constructor
  · intro source mint entryFlag priceEntry pnl l returned resolved current lower ordered liquid holds
    obtain ⟨figure, net⟩ := computeOrcaPnl_ilUsd returned resolved
    rw [holds.value] at figure
    -- the fees are on both sides of the second equation
    rw [net, add_right_inj, and_self, figure]
    exact ilUsd_eq_iff current lower ordered liquid
  · intro pos pool decimalsA decimalsB amounts priceEntry priceCurrent priceLower priceUpper l
      computed lowerEq upperEq current lower ordered liquid holds
    have figure : Watch.ilUsd core pos pool decimalsA decimalsB priceEntry priceCurrent =
        computeIl priceEntry priceCurrent priceLower priceUpper *
          (l * vLp priceCurrent priceLower priceUpper) := by
      simp only [Watch.ilUsd, Watch.positionValue, computed, ← lowerEq, ← upperEq, holds.value]
    rw [figure]
    exact ilUsd_eq_iff current lower ordered liquid

end Reported

/-! ### A price far above the range -/

theorem sqrt_uiPrice (sqrtPriceQ64 decimals : ℕ) :
    √(sqrtQ64ToUiPrice sqrtPriceQ64 decimals decimals) = sqrtPriceQ64 / twoPow64 := by
  have root : (0 : ℝ) ≤ sqrtPriceQ64 / twoPow64 :=
    div_nonneg (Nat.cast_nonneg _) twoPow64_pos.le
  rw [sqrtQ64ToUiPrice, uiFactor_self, mul_one, sqrtQ64ToPrice_eq, Real.sqrt_mul_self root]

/-- On the ticks 0 and 1, with as much liquidity as makes the amounts exact. -/
def farPosition : WhirlpoolPosition := ⟨2 ^ 64, 0, 1, 0, 0⟩

/-- At four times the price of tick 0. -/
def farPool : WhirlpoolPool := ⟨2 ^ 65, 13863, "SOL", "USDC"⟩

def farSource : OrcaSource where
  loadOrcaPositionAndPool _ := .ok (farPosition, farPool)
  fetchMintDecimals _ := .ok 0
  saveEntryPrice _ _ := .ok ()
  loadEntryPrice _ := none

/-- Prices of the ticks 0 and 1, and that of the pool. -/
noncomputable def farLower : ℝ := sqrtQ64ToUiPrice (lineCore.tickIndexToSqrtPrice 0) 0 0

noncomputable def farUpper : ℝ := sqrtQ64ToUiPrice (lineCore.tickIndexToSqrtPrice 1) 0 0

noncomputable def farPrice : ℝ := sqrtQ64ToUiPrice farPool.sqrtPrice 0 0

theorem far_roots : √farLower = 1 ∧ √farUpper = 18447666387855959850 / 2 ^ 64 ∧ √farPrice = 2 := by
  have lower : lineCore.tickIndexToSqrtPrice 0 = 2 ^ 64 := rfl
  have upper : lineCore.tickIndexToSqrtPrice 1 = 18447666387855959850 := rfl
  rw [farLower, farUpper, farPrice, sqrt_uiPrice, sqrt_uiPrice, sqrt_uiPrice, lower, upper,
    twoPow64_eq]
  norm_num [farPool]

theorem far_prices : 0 < farPrice ∧ 0 < farLower ∧ farLower < farUpper := by
  obtain ⟨lower, upper, price⟩ := far_roots
  refine ⟨Real.sqrt_pos.mp (by rw [price]; norm_num), Real.sqrt_pos.mp (by rw [lower]; norm_num), ?_⟩
  apply (Real.sqrt_lt_sqrt_iff_of_pos (Real.sqrt_pos.mp (by rw [upper]; norm_num))).mp
  rw [lower, upper]
  norm_num

theorem far_clamped : clampedRoot farLower farUpper farPrice = √farUpper ∧
    clampedRoot farLower farUpper 1 = 1 ∧ clampedRoot farLower farUpper 9 = √farUpper := by
  obtain ⟨lower, upper, price⟩ := far_roots
  have nine : √(9 : ℝ) = 3 := by
    rw [show (9 : ℝ) = 3 * 3 by norm_num, Real.sqrt_mul_self (by norm_num)]
  simp only [clampedRoot, clampTo, lower, upper, price, nine, Real.sqrt_one]
  norm_num

theorem far_holds : HoldsRange ⟨0, 922314146408234⟩ 0 0 (2 ^ 64) farLower farUpper farPrice := by
  obtain ⟨lower, upper, _⟩ := far_roots
  constructor
  · rw [far_clamped.1, firstHolding, sub_self]
    simp
  · rw [far_clamped.1, secondHolding, lower, upper, tokenScale]
    norm_num

/-- Entered above the range and still above it, nothing has moved. -/
theorem dollar_il_iff_still : ∃ pnl, computeOrcaPnl lineCore farSource "mint" (some 9) = .ok pnl ∧
    pnl.ilUsd = gainOverHolding (2 ^ 64) 9 pnl.priceCurrent pnl.priceLower pnl.priceUpper := by
  obtain ⟨current, lower, ordered⟩ := far_prices
  refine ⟨_, rfl, ?_⟩
  apply ((dollar_il_iff lineCore).1 farSource "mint" (some 9) 9 _ (2 ^ 64) rfl rfl
    current lower ordered (by positivity) far_holds).mpr _ |>.1
  exact far_clamped.2.2.trans far_clamped.1.symm

/-- Entered at the lower bound: the position is now worth about a quarter of its entry amounts, and
so much of the loss is reported. -/
theorem dollar_il_understated :
    (∃ pnl, computeOrcaPnl lineCore farSource "mint" (some 1) = .ok pnl ∧
      HoldsRange pnl.amounts 0 0 (2 ^ 64) pnl.priceLower pnl.priceUpper pnl.priceCurrent ∧
      pnl.ilUsd ≠ gainOverHolding (2 ^ 64) 1 pnl.priceCurrent pnl.priceLower pnl.priceUpper) ∧
    Watch.ilUsd lineCore farPosition farPool 0 0 1 farPrice ≠
      gainOverHolding (2 ^ 64) 1 farPrice farLower farUpper := by
  obtain ⟨current, lower, ordered⟩ := far_prices
  have moved : clampedRoot farLower farUpper 1 ≠ clampedRoot farLower farUpper farPrice := by
    rw [far_clamped.2.1, far_clamped.1, far_roots.2.1]
    norm_num
  have differ := mt (ilUsd_eq_iff current lower ordered (by positivity : (0 : ℝ) < 2 ^ 64)).mp moved
  rw [← far_holds.value] at differ
  exact ⟨⟨_, rfl, far_holds, differ⟩, differ⟩

end TickLiq
