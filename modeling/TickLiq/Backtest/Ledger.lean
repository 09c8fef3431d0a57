import TickLiq.Backtest.Realized

/-!
# The ledger of a backtest

What both engines keep over their rows: numbers from one, net as the sum of fees and
loss, fees that never fall, no positive loss, and totals that are those of the last row.
-/
namespace TickLiq

structure LedgerRows (rows : List (DayResult ℝ)) : Prop where
  numbered : rows.map (·.day) = List.range' 1 rows.length
  net : ∀ row ∈ rows, row.netPnlUsd = row.cumulativeFeesUsd + row.ilUsd
  fees : ∀ row ∈ rows, 0 ≤ row.cumulativeFeesUsd
  rising : rows.Pairwise fun a b => a.cumulativeFeesUsd ≤ b.cumulativeFeesUsd
  il : ∀ row ∈ rows, row.ilUsd ≤ 0

/-- A result over `steps` ticks or days. -/
structure Ledger (steps : ℕ) (result : BacktestResult ℝ) : Prop where
  rows : LedgerRows result.days
  totalFees : result.totalFeesUsd = (result.days.getLast?.map (·.cumulativeFeesUsd)).getD 0
  totalIl : result.totalIlUsd = (result.days.getLast?.map (·.ilUsd)).getD 0
  netPnl : result.netPnlUsd = (result.days.getLast?.map (·.netPnlUsd)).getD 0
  daysInRange : result.daysInRange = result.days.countP (·.inRange)
  totalRebalances : result.totalRebalances ≤ steps

theorem LedgerRows.nil : LedgerRows [] :=
  ⟨rfl, by simp, by simp, List.Pairwise.nil, by simp⟩

/-- A row that carries on from the ones before it. -/
theorem LedgerRows.concat {rows : List (DayResult ℝ)} {row : DayResult ℝ} (before : LedgerRows rows)
    (day : row.day = rows.length + 1) (net : row.netPnlUsd = row.cumulativeFeesUsd + row.ilUsd)
    (fees : 0 ≤ row.cumulativeFeesUsd)
    (rising : ∀ r ∈ rows, r.cumulativeFeesUsd ≤ row.cumulativeFeesUsd) (il : row.ilUsd ≤ 0) :
    LedgerRows (rows ++ [row]) := by
  have both : ∀ {P : DayResult ℝ → Prop}, (∀ r ∈ rows, P r) → P row → ∀ r ∈ rows ++ [row], P r := by
    intro P old new r member
    rcases List.mem_append.mp member with inside | last
    · exact old r inside
    · rw [List.mem_singleton.mp last]
      exact new
  refine ⟨?_, both before.net net, both before.fees fees, ?_, both before.il il⟩
  · rw [List.map_append, before.numbered, List.length_append, List.length_singleton,
      List.range'_1_concat, List.map_singleton, day, Nat.add_comm 1]
  · apply List.pairwise_append.mpr
    refine ⟨before.rising, List.pairwise_singleton .., ?_⟩
    intro r inside last member
    rw [List.mem_singleton.mp member]
    exact rising r inside

theorem computeIl_nonpos (priceEntry priceCurrent priceLower priceUpper : ℝ) :
    computeIl priceEntry priceCurrent priceLower priceUpper ≤ 0 := by
  unfold computeIl
  dsimp only
  split
  · exact le_refl 0
  split
  · exact le_refl 0
  split
  · exact le_refl 0
  split
  · exact le_refl 0
  · exact min_le_right ..

/-! ### The replay -/

theorem DbBacktestInput.uiPrice_nonneg (input : DbBacktestInput ℝ) (t : PoolTickRow) :
    0 ≤ input.uiPrice t :=
  mul_nonneg (mul_self_nonneg _) (uiFactor_pos ..).le

/-- Growth is a wrapped difference, so no stream makes a fee negative. -/
theorem DbBacktestInput.feesStep_nonneg (input : DbBacktestInput ℝ) (replay : Replay ℝ)
    (t : PoolTickRow) : 0 ≤ input.feesStep replay (input.uiPrice t) t := by
  have price := input.uiPrice_nonneg t
  have scaleA := tokenScale_pos input.decimalsA
  have scaleB := tokenScale_pos input.decimalsB
  have unit := twoPow64_pos
  simp only [feesStep]
  positivity

namespace Replay

structure Balanced (replay : Replay ℝ) : Prop where
  rows : LedgerRows replay.dayResults
  number : replay.dayResults.length = replay.currentDayNum
  fees : 0 ≤ replay.cumulativeFees
  rising : ∀ row ∈ replay.dayResults, row.cumulativeFeesUsd ≤ replay.cumulativeFees
  realized : replay.realizedIlUsd ≤ 0
  unrealized : replay.lastUnrealizedIlUsd ≤ 0
  daysInRange : replay.daysInRange = replay.dayResults.countP (·.inRange)

variable {input : DbBacktestInput ℝ} {checks : Bool}

/-- The rows with the row of the current day. -/
theorem Balanced.closed {replay : Replay ℝ} (balanced : Balanced replay) :
    LedgerRows (replay.dayResults ++ [replay.dayRow]) :=
  balanced.rows.concat (by rw [balanced.number]; rfl) rfl balanced.fees balanced.rising
    (add_nonpos balanced.realized balanced.unrealized)

theorem dayBoundary_balanced {replay : Replay ℝ} (balanced : Balanced replay) (dayDate : ℤ) :
    Balanced (replay.dayBoundary dayDate) := by
  by_cases same : dayDate = replay.currentDayDate
  · rw [dayBoundary_same same]
    exact balanced
  · rw [dayBoundary_new same]
    refine ⟨balanced.closed, ?_, balanced.fees, ?_, balanced.realized, balanced.unrealized, ?_⟩
    · rw [List.length_append, balanced.number]
      rfl
    · intro row member
      rcases List.mem_append.mp member with inside | last
      · exact balanced.rising row inside
      · rw [List.mem_singleton.mp last]
        exact le_refl _
    · rw [List.countP_append, ← balanced.daysInRange, List.countP_singleton]
      by_cases inRange : replay.dayWasInRange = true
      · rw [if_pos inRange, if_pos (show replay.dayRow.inRange = true from inRange)]
      · rw [if_neg inRange, if_neg (show ¬ replay.dayRow.inRange = true from inRange)]
        rfl

theorem observe_balanced {replay : Replay ℝ} (capital : 0 ≤ input.initialValueUsd)
    (balanced : Balanced replay) (i : ℕ) (t : PoolTickRow) :
    Balanced (replay.observe input i t) := by
  obtain ⟨rows, number, fees, rising, realized, _, daysInRange⟩ :=
    dayBoundary_balanced balanced (dateNaive t.time)
  have step := input.feesStep_nonneg (replay.dayBoundary (dateNaive t.time)) t
  -- fees only ever grow, and the loss is a non-positive part of the capital
  have grown : (replay.dayBoundary (dateNaive t.time)).cumulativeFees ≤
      (replay.observe input i t).cumulativeFees := by
    simp only [observe, accrue]
    split
    · exact le_add_of_nonneg_right step
    · exact le_refl _
  refine ⟨rows, number, fees.trans grown, ?_, realized, ?_, daysInRange⟩
  · intro row member
    exact (rising row member).trans grown
  · exact mul_nonpos_of_nonpos_of_nonneg (computeIl_nonpos ..) capital

theorem step_balanced {replay next : Replay ℝ} {i : ℕ} {t : PoolTickRow}
    (capital : 0 ≤ input.initialValueUsd) (balanced : Balanced replay)
    (returned : replay.step input checks i t = .ok next) : Balanced next := by
  obtain ⟨rows, number, fees, rising, realized, unrealized, daysInRange⟩ :=
    observe_balanced capital balanced i t
  rcases step_cases returned with held | recentered
  · rw [held]
    exact ⟨rows, number, fees, rising, realized, unrealized, daysInRange⟩
  · rw [recentered.moved]
    exact ⟨rows, number, fees, rising, add_nonpos realized unrealized, le_refl 0, daysInRange⟩

theorem start_balanced {first : PoolTickRow} {opened : Replay ℝ}
    (start : Replay.start input checks first = .ok opened) : Balanced opened := by
  have opening := start_ok start
  have none : opened.dayResults = [] := opening.rows
  refine ⟨?_, ?_, opening.fees.ge, ?_, opening.realized.le, opening.unrealized.le, ?_⟩
  · rw [none]
    exact LedgerRows.nil
  · rw [none, opening.dayNum]
    rfl
  · rw [none]
    intro row member
    cases member
  · rw [none, opening.daysInRange]
    rfl

end Replay

theorem replay_ledger {checks : Bool} {input : DbBacktestInput ℝ} {ticks : List PoolTickRow}
    {result : BacktestResult ℝ} (capital : 0 ≤ input.initialValueUsd)
    (returned : runDbBacktest checks input ticks = .ok result) : Ledger ticks.length result := by
  obtain ⟨length, count, _⟩ := totalIl_by_segments returned
  have most : result.totalRebalances ≤ ticks.length := by
    rw [← count, ← length]
    exact List.count_le_length ..
  cases ticks with
  | nil => cases returned
  | cons first ticks =>
    obtain ⟨opened, last, start, loop, finished⟩ := runDbBacktest_ok returned
    have balanced : Replay.Balanced last :=
      Replay.loop_invariant (Replay.start_balanced start)
        (fun i before t _ next held stepped => Replay.step_balanced capital held stepped) loop
    refine ⟨?_, ?_, ?_, ?_, ?_, most⟩ <;> rw [finished, Replay.finish_days]
    -- the last day is closed by the end of the replay
    · exact balanced.closed
    · rw [List.getLast?_concat]
      rfl
    · rw [List.getLast?_concat]
      rfl
    · rw [List.getLast?_concat]
      rfl
    · rw [List.countP_append, ← balanced.daysInRange]
      simp only [Replay.finish, Replay.dayRow, List.countP_singleton]
      split <;> rfl

/-! ### The GBM engine -/

/-- Capital and fee inputs that make no fee negative. -/
structure BacktestParams.Nonnegative (params : BacktestParams ℝ) : Prop where
  capital : 0 ≤ params.initialValueUsd
  volume : 0 ≤ params.dailyVolumeUsd
  share : 0 ≤ params.positionVolumeShare
  feeRate : 0 ≤ params.feeRateBps

namespace Gbm

structure Balanced (days : ℕ) (gbm : Gbm ℝ) : Prop where
  rows : LedgerRows gbm.dayResults
  count : gbm.dayResults.length = days
  fees : 0 ≤ gbm.cumulativeFees
  rising : ∀ row ∈ gbm.dayResults, row.cumulativeFeesUsd ≤ gbm.cumulativeFees
  realized : gbm.realizedIlUsd ≤ 0
  daysInRange : gbm.daysInRange = gbm.dayResults.countP (·.inRange)

variable {params : BacktestParams ℝ} {checks : Bool}

theorem unrealizedIlUsd_nonpos (capital : 0 ≤ params.initialValueUsd) (gbm : Gbm ℝ) (price : ℝ) :
    gbm.unrealizedIlUsd params price ≤ 0 :=
  mul_nonpos_of_nonpos_of_nonneg (computeIl_nonpos ..) capital

theorem accrue_fees (nonnegative : params.Nonnegative) (gbm : Gbm ℝ) (price : ℝ) :
    gbm.cumulativeFees ≤ (gbm.accrue params price).cumulativeFees := by
  apply le_add_of_nonneg_right
  split
  · have rate : 0 ≤ params.feeFraction := div_nonneg nonnegative.feeRate (Nat.cast_nonneg _)
    exact mul_nonneg (mul_nonneg nonnegative.volume nonnegative.share) rate
  · exact le_refl 0

theorem step_balanced {gbm next : Gbm ℝ} {days : ℕ} {drawn : ℝ} (nonnegative : params.Nonnegative)
    (balanced : Balanced days gbm)
    (returned : gbm.step params checks (1 + days) drawn = .ok next) :
    Balanced (days + 1) next := by
  have rows := step_rows returned
  have grown := accrue_fees nonnegative gbm (max drawn 1e-6)
  have loss := unrealizedIlUsd_nonpos nonnegative.capital gbm (max drawn 1e-6)
  have closed : LedgerRows next.dayResults := by
    rw [rows]
    exact balanced.rows.concat (by rw [balanced.count, Nat.add_comm]; rfl) rfl
      (balanced.fees.trans grown) (fun r member => (balanced.rising r member).trans grown)
      (add_nonpos balanced.realized loss)
  -- a rebalance leaves fees and days alone and moves one loss to the other
  have kept : next.cumulativeFees = (gbm.accrue params (max drawn 1e-6)).cumulativeFees ∧
      next.daysInRange = (gbm.accrue params (max drawn 1e-6)).daysInRange ∧
      next.realizedIlUsd ≤ 0 := by
    obtain ⟨rested, decided, made⟩ := step_ok returned
    rw [made]
    rcases rebalanceDay_cases decided with held | moved
    · rw [held.1]
      exact ⟨rfl, rfl, balanced.realized⟩
    · rw [moved.1]
      exact ⟨rfl, rfl, add_nonpos balanced.realized loss⟩
  obtain ⟨fees, inRange, realized⟩ := kept
  refine ⟨closed, ?_, ?_, ?_, realized, ?_⟩
  · rw [rows, List.length_append, balanced.count]
    rfl
  · rw [fees]
    exact balanced.fees.trans grown
  · intro row member
    rw [rows] at member
    rw [fees]
    rcases List.mem_append.mp member with inside | last
    · exact (balanced.rising row inside).trans grown
    · rw [List.mem_singleton.mp last]
      exact le_refl _
  · rw [inRange, rows, List.countP_append, ← balanced.daysInRange, List.countP_singleton]
    change (if gbm.inRange (max drawn 1e-6) then gbm.daysInRange + 1 else gbm.daysInRange) =
      gbm.daysInRange + if gbm.inRange (max drawn 1e-6) then 1 else 0
    cases gbm.inRange (max drawn 1e-6) <;> rfl

end Gbm

theorem run_ledger {checks : Bool} {params : BacktestParams ℝ} {path : ℕ → ℝ}
    {result : BacktestResult ℝ} (nonnegative : params.Nonnegative)
    (returned : Gbm.run checks params path = .ok result) : Ledger params.days result := by
  obtain ⟨length, count, _⟩ := Gbm.run_by_segments returned
  -- as many rebalances as marks, and a mark a day
  have most : result.totalRebalances ≤ params.days := by
    rw [← count, ← length]
    exact List.count_le_length ..
  obtain ⟨last, through, finished⟩ := Gbm.run_ok.mp returned
  have balanced := Machine.loop_history Gbm.rebalanced
    (P := fun seen gbm => Gbm.Balanced seen.length gbm)
    ⟨LedgerRows.nil, rfl, le_refl 0, by simp [Gbm.start], le_refl 0, rfl⟩
    (by
      intro seen u price _ v held stepped
      rw [List.length_append]
      exact Gbm.step_balanced nonnegative held stepped) through
  -- the totals repeat the last row
  have net : result.netPnlUsd = (result.days.getLast?.map (·.netPnlUsd)).getD 0 := by
    rw [finished]
    cases ends : last.dayResults.getLast? with
    | none =>
      simp only [Gbm.finish, ends]
      exact add_zero 0
    | some row =>
      simp only [Gbm.finish, ends, Option.map_some, Option.getD_some]
      exact (balanced.rows.net row (List.mem_of_getLast? ends)).symm
  refine ⟨?_, ?_, ?_, net, ?_, most⟩ <;> rw [finished]
  · exact balanced.rows
  · rfl
  · rfl
  · exact balanced.daysInRange

/-- Both engines keep their ledger: rows numbered from one, net as fees plus loss, fees that
rise from zero, no positive loss, totals of the last row, and days in range as counted. -/
theorem ledger_invariants :
    (∀ checks input ticks result, 0 ≤ input.initialValueUsd →
      runDbBacktest checks input ticks = .ok result → Ledger ticks.length result) ∧
    (∀ checks params path result, params.Nonnegative →
      Gbm.run checks params path = .ok result → Ledger params.days result) := by
  constructor
  · intro checks input ticks result capital returned
    exact replay_ledger capital returned
  · intro checks params path result nonnegative returned
    exact run_ledger nonnegative returned

theorem ledger_invariants_sample :
    (∃ result, runDbBacktest false sampleInput [midnightRow 0, midnightRow 1] = .ok result ∧
      Ledger 2 result) ∧
    (∃ result, Gbm.run false sampleParams (fun day => day) = .ok result ∧ Ledger 2 result) := by
  obtain ⟨replays, runs⟩ := ledger_invariants
  constructor
  · obtain ⟨result, returned⟩ := runDbBacktest_unchecked (show 0 < sampleInput.tickSpacing by decide)
      (List.cons_ne_nil (midnightRow 0) [midnightRow 1])
    exact ⟨result, returned, replays false sampleInput _ result (by norm_num [sampleInput]) returned⟩
  · obtain ⟨result, returned⟩ := Gbm.run_unchecked (show 0 < sampleParams.tickSpacing by decide)
      fun day => day
    have nonnegative : sampleParams.Nonnegative := by
      constructor <;> norm_num [sampleParams]
    exact ⟨result, returned, runs false sampleParams _ result nonnegative returned⟩

end TickLiq
