import TickLiq.Backtest.DayRows
import TickLiq.Math.Metrics

/-!
# The size of the position

Capital and liquidity enter the replay in dollar amounts only, and with a threshold of
zero the signal reads no more of them than a sign. So a run of `k` times the position is
the run of the position with every dollar amount times `k`.
-/
namespace TickLiq

open Machine (steppedGrowth)

def DbBacktestInput.scale (input : DbBacktestInput ℝ) (k : ℕ) : DbBacktestInput ℝ :=
  { input with
    initialValueUsd := k * input.initialValueUsd
    positionLiquidity := k * input.positionLiquidity }

/-- Dollar figures times `k`; day, price and range flag stay. -/
def DayResult.scale (row : DayResult ℝ) (k : ℕ) : DayResult ℝ :=
  { row with
    cumulativeFeesUsd := k * row.cumulativeFeesUsd
    ilUsd := k * row.ilUsd
    netPnlUsd := k * row.netPnlUsd }

/-- Dollar figures times `k`; counts and APY stay. -/
def BacktestResult.scale (result : BacktestResult ℝ) (k : ℕ) : BacktestResult ℝ :=
  { result with
    paramsSnapshot := { result.paramsSnapshot with
      initialValueUsd := k * result.paramsSnapshot.initialValueUsd }
    days := result.days.map fun row => row.scale k
    totalFeesUsd := k * result.totalFeesUsd
    totalIlUsd := k * result.totalIlUsd
    netPnlUsd := k * result.netPnlUsd }

def Replay.scale (replay : Replay ℝ) (k : ℕ) : Replay ℝ :=
  { replay with
    cumulativeFees := k * replay.cumulativeFees
    realizedIlUsd := k * replay.realizedIlUsd
    lastUnrealizedIlUsd := k * replay.lastUnrealizedIlUsd
    dayResults := replay.dayResults.map fun row => row.scale k }

/-- The signal reads the P&L only against its threshold. -/
theorem shouldRebalance_congr {checks : Bool} {tickCurrent tickLower tickUpper : ℤ}
    {netPnl netPnl' : ℝ} {config : RebalanceConfig ℝ}
    (same : netPnl < config.minNetPnlUsd ↔ netPnl' < config.minNetPnlUsd) :
    shouldRebalance checks tickCurrent tickLower tickUpper netPnl config =
      shouldRebalance checks tickCurrent tickLower tickUpper netPnl' config := by
  simp only [shouldRebalance, same]

namespace Replay

variable {input : DbBacktestInput ℝ} {checks : Bool} (k : ℕ)

theorem dayRow_scale (replay : Replay ℝ) : (replay.scale k).dayRow = replay.dayRow.scale k := by
  simp only [dayRow, scale, DayResult.scale, mul_add]

theorem dayBoundary_scale (replay : Replay ℝ) (dayDate : ℤ) :
    (replay.scale k).dayBoundary dayDate = (replay.dayBoundary dayDate).scale k := by
  by_cases same : dayDate = replay.currentDayDate
  · rw [dayBoundary_same same]
    exact dayBoundary_same same
  · have different : dayDate ≠ (replay.scale k).currentDayDate := same
    rw [dayBoundary_new same, dayBoundary_new different, dayRow_scale]
    simp only [scale, List.map_append, List.map_singleton]
    rfl

theorem feesStep_scale (replay : Replay ℝ) (price : ℝ) (t : PoolTickRow) :
    (input.scale k).feesStep (replay.scale k) price t = k * input.feesStep replay price t := by
  simp only [DbBacktestInput.feesStep, DbBacktestInput.scale, scale, Nat.cast_mul]
  ring

theorem observe_scale (replay : Replay ℝ) (i : ℕ) (t : PoolTickRow) :
    (replay.scale k).observe (input.scale k) i t = (replay.observe input i t).scale k := by
  have il : ∀ x : ℝ, x * (k * input.initialValueUsd) = k * (x * input.initialValueUsd) := by
    intro x
    ring
  -- accruing adds `k` times the fees, whether or not it adds any
  have accrued : ∀ replay : Replay ℝ, (replay.scale k).accrue (input.scale k) i (input.uiPrice t) t =
      (replay.accrue input i (input.uiPrice t) t).scale k := by
    intro replay
    simp only [accrue, feesStep_scale]
    split
    · simp only [scale, mul_add]
    · simp only [scale]
  simp only [observe, dayBoundary_scale, DbBacktestInput.scale, il]
  have opened := accrued { replay.dayBoundary (dateNaive t.time) with
    dayWasInRange :=
      if decide (replay.tickLower ≤ t.tickCurrent ∧ t.tickCurrent ≤ replay.tickUpper) then true
      else (replay.dayBoundary (dateNaive t.time)).dayWasInRange }
  exact congrArg (fun accrued : Replay ℝ => { accrued with
    lastPrice := input.uiPrice t
    lastUnrealizedIlUsd := k * (computeIl accrued.curEntryPrice (input.uiPrice t)
      accrued.curPriceLower accrued.curPriceUpper * input.initialValueUsd) }) opened

theorem recenter_scale (replay : Replay ℝ) :
    (replay.scale k).recenter (input.scale k) checks =
      (replay.recenter input checks).map fun next => next.scale k := by
  have bound : ∀ price, (input.scale k).tickBound checks price = input.tickBound checks price :=
    fun _ => rfl
  have price : (replay.scale k).lastPrice = replay.lastPrice := rfl
  have lower : (input.scale k).rangeFactorLower = input.rangeFactorLower := rfl
  have upper : (input.scale k).rangeFactorUpper = input.rangeFactorUpper := rfl
  simp only [recenter, bound, price, lower, upper]
  cases input.tickBound checks (max (replay.lastPrice * input.rangeFactorLower) 1e-9) with
  | error panic => rfl
  | ok tickLower =>
    cases input.tickBound checks (replay.lastPrice * input.rangeFactorUpper) with
    | error panic => rfl
    | ok tickUpper =>
      refine congrArg Except.ok ?_
      simp only [scale, mul_add, mul_zero]

theorem step_scale (positive : 1 ≤ k) (threshold : input.rebalanceCfg.minNetPnlUsd = 0)
    (replay : Replay ℝ) (i : ℕ) (t : PoolTickRow) :
    (replay.scale k).step (input.scale k) checks i t =
      (replay.step input checks i t).map fun next => next.scale k := by
  have factor : (0 : ℝ) < k := Nat.cast_pos.mpr positive
  have sign : ∀ netPnl : ℝ, k * netPnl < input.rebalanceCfg.minNetPnlUsd ↔
      netPnl < input.rebalanceCfg.minNetPnlUsd := by
    intro netPnl
    rw [threshold, ← not_le, ← not_le, mul_nonneg_iff_of_pos_left factor]
  have netPnl : ((replay.observe input i t).scale k).cumulativeFees +
      ((replay.observe input i t).scale k).realizedIlUsd +
        ((replay.observe input i t).scale k).lastUnrealizedIlUsd =
      k * ((replay.observe input i t).cumulativeFees + (replay.observe input i t).realizedIlUsd +
        (replay.observe input i t).lastUnrealizedIlUsd) := by
    simp only [scale, mul_add]
  have config : (input.scale k).rebalanceCfg = input.rebalanceCfg := rfl
  simp only [step, observe_scale, netPnl, config, shouldRebalance_congr (sign _)]
  -- both sides go by the same signal
  change (shouldRebalance checks t.tickCurrent (replay.observe input i t).tickLower
    (replay.observe input i t).tickUpper _ _ >>= _) = _
  cases shouldRebalance checks t.tickCurrent (replay.observe input i t).tickLower
      (replay.observe input i t).tickUpper ((replay.observe input i t).cumulativeFees +
        (replay.observe input i t).realizedIlUsd + (replay.observe input i t).lastUnrealizedIlUsd)
      input.rebalanceCfg with
  | error panic => rfl
  | ok signal =>
    cases signal with
    | hold reason => rfl
    | rebalance reason => exact recenter_scale k (replay.observe input i t)

theorem loop_scale (positive : 1 ≤ k) (threshold : input.rebalanceCfg.minNetPnlUsd = 0) (i : ℕ)
    (replay : Replay ℝ) (ticks : List PoolTickRow) :
    loop (input.scale k) checks i (replay.scale k) ticks =
      (loop input checks i replay ticks).map fun last => last.scale k := by
  induction ticks generalizing i replay with
  | nil => rfl
  | cons t ticks ih =>
    simp only [loop, step_scale k positive threshold]
    cases replay.step input checks i t with
    | error panic => rfl
    | ok next => exact ih (i + 1) next

theorem start_scale (first : PoolTickRow) :
    start (input.scale k) checks first =
      (start input checks first).map fun opened => opened.scale k := by
  simp only [start]
  change (input.tickBound checks input.priceLower >>= _) = _
  cases input.tickBound checks input.priceLower with
  | error panic => rfl
  | ok tickLower =>
    change (input.tickBound checks input.priceUpper >>= _) = _
    cases input.tickBound checks input.priceUpper with
    | error panic => rfl
    | ok tickUpper =>
      refine congrArg Except.ok ?_
      simp only [scale, mul_zero, List.map_nil]
      rfl

theorem finish_scale (positive : 1 ≤ k) (replay : Replay ℝ) :
    (replay.scale k).finish (input.scale k) = (replay.finish input).scale k := by
  have factor : (0 : ℝ) < k := Nat.cast_pos.mpr positive
  have capital : 0 < (k : ℝ) * input.initialValueUsd ↔ 0 < input.initialValueUsd :=
    mul_pos_iff_of_pos_left factor
  have share : (k : ℝ) * replay.cumulativeFees / (k * input.initialValueUsd) =
      replay.cumulativeFees / input.initialValueUsd := mul_div_mul_left _ _ factor.ne'
  simp only [finish, scale, DbBacktestInput.scale, BacktestResult.scale, mul_add,
    List.map_append, List.map_singleton, DayResult.scale]
  congr 1
  exact if_congr (and_congr_right' capital) (by rw [share]) rfl

end Replay

theorem runDbBacktest_scale {checks : Bool} {input : DbBacktestInput ℝ} {k : ℕ} (positive : 1 ≤ k)
    (threshold : input.rebalanceCfg.minNetPnlUsd = 0) (ticks : List PoolTickRow) :
    runDbBacktest checks (input.scale k) ticks =
      (runDbBacktest checks input ticks).map fun result => result.scale k := by
  cases ticks with
  | nil => rfl
  | cons first ticks =>
    have replayed : (Replay.start (input.scale k) checks first >>= fun opened =>
        Replay.loop (input.scale k) checks 0 opened (first :: ticks)) =
        (Replay.start input checks first >>= fun opened =>
          Replay.loop input checks 0 opened (first :: ticks)).map fun last => last.scale k := by
      rw [Replay.start_scale]
      cases Replay.start input checks first with
      | error panic => rfl
      | ok opened => exact Replay.loop_scale k positive threshold 0 opened (first :: ticks)
    simp only [runDbBacktest, replayed]
    cases (Replay.start input checks first >>= fun opened =>
        Replay.loop input checks 0 opened (first :: ticks)) with
    | error panic => rfl
    | ok last => exact congrArg Except.ok (Replay.finish_scale k positive last)

/-- Results do not depend on the size of the position: `k` times capital and liquidity give
`k` times every dollar figure and nothing else, the risk metrics included. -/
theorem results_invariant_to_size (input : DbBacktestInput ℝ) (k : ℕ) (positive : 1 ≤ k)
    (threshold : input.rebalanceCfg.minNetPnlUsd = 0) (checks : Bool) (ticks : List PoolTickRow) :
    runDbBacktest checks (input.scale k) ticks =
        (runDbBacktest checks input ticks).map (fun result => result.scale k) ∧
      ∀ result, runDbBacktest checks input ticks = .ok result →
        RiskMetrics.fromBacktest (input.scale k).initialValueUsd
            ((result.scale k).days.map (·.netPnlUsd)) =
          RiskMetrics.fromBacktest input.initialValueUsd (result.days.map (·.netPnlUsd)) := by
  refine ⟨runDbBacktest_scale positive threshold ticks, ?_⟩
  intro result _
  have nets : (result.scale k).days.map (·.netPnlUsd) =
      (result.days.map (·.netPnlUsd)).map fun net : ℝ => (k : ℝ) * net := by
    simp only [BacktestResult.scale, List.map_map]
    rfl
  rw [nets]
  exact fromBacktest_scale (Nat.cast_pos.mpr positive) _ _

/-- Three units of growth of token B, overnight. -/
def grownRow : PoolTickRow := { midnightRow 1 with feeGrowthGlobalB := 3 }

theorem results_invariant_to_size_doubled :
    ∃ result, runDbBacktest false sampleInput [midnightRow 0, grownRow] = .ok result ∧
      result.totalFeesUsd = 3 ∧
      runDbBacktest false (sampleInput.scale 2) [midnightRow 0, grownRow] =
        .ok (result.scale 2) ∧
      (result.scale 2).totalFeesUsd = 6 ∧
      RiskMetrics.fromBacktest (sampleInput.scale 2).initialValueUsd
          ((result.scale 2).days.map (·.netPnlUsd)) =
        RiskMetrics.fromBacktest sampleInput.initialValueUsd (result.days.map (·.netPnlUsd)) := by
  obtain ⟨result, returned⟩ := runDbBacktest_unchecked (show 0 < sampleInput.tickSpacing by decide)
    (List.cons_ne_nil (midnightRow 0) [grownRow])
  obtain ⟨scaled, ratios⟩ := results_invariant_to_size sampleInput 2 (by decide) rfl false
    [midnightRow 0, grownRow]
  rw [returned] at scaled
  have fees : result.totalFeesUsd = 3 := by
    rw [runDbBacktest_fees (by simp [grownRow, midnightRow]) (by simp [grownRow, midnightRow])
      returned]
    have stepped : steppedGrowth (2 ^ 128) (midnightRow 0).feeGrowthGlobalB
        ([grownRow].map (·.feeGrowthGlobalB)) = 3 := by decide
    rw [stepped]
    norm_num [sampleInput, twoPow64_eq, tokenScale_eq]
  refine ⟨result, returned, fees, scaled, ?_, ratios result returned⟩
  simp only [BacktestResult.scale, fees]
  norm_num

end TickLiq
