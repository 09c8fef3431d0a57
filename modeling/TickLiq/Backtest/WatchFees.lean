import Mathlib.Algebra.Order.Floor.Semifield
import TickLiq.Backtest.RoundTrip
import TickLiq.Math.Fees

/-!
# The fees of the replay and of the watch loop

The watch loop takes one wrapped difference of two readings, the replay sums one per
row. While token B grows by less than 2^128 both come to the same growth, also where
the counter wraps in the middle of the stream.
-/
namespace TickLiq

open Machine (wrappingSub steppedGrowth steppedGrowth_eq_wrappingSub)

/-- The replay's total in raw token B. -/
noncomputable def rawFees (input : DbBacktestInput ℝ) (result : BacktestResult ℝ) : ℝ :=
  result.totalFeesUsd * 10 ^ input.decimalsB

/-- The whole units of `L·G/2^64` are what the watch loop computes, as far as `u64` goes. -/
theorem floor_growth_eq_computeAccruedFees {current first positionLiquidity : ℕ}
    (fits : ⌊(positionLiquidity * feeGrowthDelta first current : ℝ) / 2 ^ 64⌋₊ < 2 ^ 64) :
    ⌊(positionLiquidity * feeGrowthDelta first current : ℝ) / 2 ^ 64⌋₊ =
      computeAccruedFees current first positionLiquidity := by
  have floor : ⌊(positionLiquidity * feeGrowthDelta first current : ℝ) / 2 ^ 64⌋₊ =
      feeGrowthDelta first current * positionLiquidity / 2 ^ 64 := by
    have quotient := Nat.floor_div_eq_div (K := ℝ)
      (feeGrowthDelta first current * positionLiquidity) (2 ^ 64)
    rw [← quotient, Nat.cast_mul, Nat.cast_pow, Nat.cast_ofNat, mul_comm]
  rw [floor] at fits ⊢
  rw [computeAccruedFees_eq]
  exact (Nat.mod_eq_of_lt fits).symm

/-- The stepwise growth of a stream is the one wrapped difference the watch loop takes. -/
theorem steppedGrowth_eq_feeGrowthDelta {first : PoolTickRow} {ticks : List PoolTickRow}
    (readings : ∀ t ∈ first :: ticks, t.feeGrowthGlobalB < 2 ^ 128)
    (fits : steppedGrowth (2 ^ 128) first.feeGrowthGlobalB (ticks.map (·.feeGrowthGlobalB)) <
      2 ^ 128) :
    steppedGrowth (2 ^ 128) first.feeGrowthGlobalB (ticks.map (·.feeGrowthGlobalB)) =
      feeGrowthDelta first.feeGrowthGlobalB
        ((first :: ticks).getLast (List.cons_ne_nil first ticks)).feeGrowthGlobalB := by
  have bounded : ∀ reading ∈ ticks.map (·.feeGrowthGlobalB), reading < 2 ^ 128 := by
    intro reading member
    obtain ⟨t, inside, same⟩ := List.mem_map.mp member
    rw [← same]
    exact readings t (List.mem_cons_of_mem first inside)
  have telescoped := steppedGrowth_eq_wrappingSub _ (readings first (List.mem_cons_self ..))
    bounded fits
  rw [telescoped]
  have last : ((first :: ticks).map (·.feeGrowthGlobalB)).getLast (by simp) =
      ((first :: ticks).getLast (List.cons_ne_nil first ticks)).feeGrowthGlobalB :=
    List.getLast_map ..
  simp only [feeGrowthDelta]
  rw [← last]
  rfl

/-- Live watch and offline replay account the same fees: the replayed total is `L·G/2^64`
of the one wrapped growth `G` from the first row to the last, and its whole units are the
number the watch loop prints. The replay returns in a build that wraps. -/
theorem replay_agrees_with_watch (input : DbBacktestInput ℝ) (first : PoolTickRow)
    (ticks : List PoolTickRow)
    (readings : ∀ t ∈ first :: ticks, t.feeGrowthGlobalB < 2 ^ 128)
    (liquid : ∀ t ∈ ticks, 0 < t.liquidity)
    (still : ∀ t ∈ ticks, t.feeGrowthGlobalA = first.feeGrowthGlobalA)
    (fits : steppedGrowth (2 ^ 128) first.feeGrowthGlobalB (ticks.map (·.feeGrowthGlobalB)) <
      2 ^ 128) :
    let last := (first :: ticks).getLast (List.cons_ne_nil first ticks)
    let growth := wrappingSub (2 ^ 128) last.feeGrowthGlobalB first.feeGrowthGlobalB
    (∀ checks result, runDbBacktest checks input (first :: ticks) = .ok result →
      rawFees input result = input.positionLiquidity * growth / 2 ^ 64 ∧
      (⌊rawFees input result⌋₊ < 2 ^ 64 →
        ⌊rawFees input result⌋₊ = computeAccruedFees last.feeGrowthGlobalB
          first.feeGrowthGlobalB input.positionLiquidity)) ∧
    (0 < input.tickSpacing → ∃ result, runDbBacktest false input (first :: ticks) = .ok result) := by
  intro last growth
  constructor
  · intro checks result returned
    have fees := runDbBacktest_fees liquid still returned
    rw [steppedGrowth_eq_feeGrowthDelta readings fits] at fees
    -- the token scale of the total and the one it is multiplied back with cancel
    have raw : rawFees input result = input.positionLiquidity * growth / 2 ^ 64 := by
      have scale := (tokenScale_pos input.decimalsB).ne'
      simp only [rawFees]
      rw [fees, ← tokenScale_eq, div_mul_cancel₀ _ scale, twoPow64_eq, div_mul_eq_mul_div, mul_comm]
      rfl
    refine ⟨raw, ?_⟩
    rw [raw]
    exact floor_growth_eq_computeAccruedFees
  · intro positive
    exact runDbBacktest_unchecked positive (List.cons_ne_nil first ticks)

/-- A row at price one; its growth of token B is all that varies. -/
def growthRow (growthB : ℕ) : PoolTickRow := ⟨0, "pool", 0, 0, 2 ^ 64, 1, 0, growthB⟩

/-- The counter wraps between the second and the third row. -/
theorem replay_agrees_with_watch_wrapped :
    ∃ result, runDbBacktest false sampleInput
        [growthRow (2 ^ 128 - 3), growthRow (2 ^ 128 - 1), growthRow 5] = .ok result ∧
      rawFees sampleInput result = 8 ∧ computeAccruedFees 5 (2 ^ 128 - 3) (2 ^ 64) = 8 := by
  have agreed := replay_agrees_with_watch sampleInput (growthRow (2 ^ 128 - 3))
    [growthRow (2 ^ 128 - 1), growthRow 5] (by decide) (by decide) (by decide) (by decide)
  obtain ⟨fees, returns⟩ := agreed
  obtain ⟨result, returned⟩ := returns (by decide)
  have raw := (fees false result returned).1
  have growth : wrappingSub (2 ^ 128) 5 (2 ^ 128 - 3) = 8 := by decide
  refine ⟨result, returned, ?_, by decide⟩
  rw [raw]
  simp only [List.getLast_cons_cons, List.getLast_singleton, growthRow, growth, sampleInput]
  norm_num

end TickLiq
