import TickLiq.Backtest.PriceToTick
import TickLiq.Backtest.Report
import TickLiq.Machine.Wrapping
import TickLiq.Strategy.Signal

/-!
# The replay of stored ticks

`run_db_backtest` walks the rows of a pool in time order: it closes a day row at
every change of date, accrues fees from the growth between two rows and re-centres
the range when the signal says so. Growth is per unit of liquidity, so the fees of
a whole stream are those of its stepwise growth.
-/
namespace TickLiq

open Machine (Panic wrappingSub steppedGrowth bind_ok_iff)

structure PoolTickRow where
  /-- In microseconds. -/
  time : ℤ
  poolAddress : String
  slot : ℤ
  tickCurrent : ℤ
  sqrtPrice : ℕ
  liquidity : ℕ
  feeGrowthGlobalA : ℕ
  feeGrowthGlobalB : ℕ

structure DbBacktestInput (K : Type) where
  initialValueUsd : K
  entryPrice : K
  priceLower : K
  priceUpper : K
  feeRateBps : K
  tickSpacing : ℤ
  positionLiquidity : ℕ
  decimalsA : ℕ
  decimalsB : ℕ
  rebalanceCfg : RebalanceConfig K
  rangeFactorLower : K
  rangeFactorUpper : K

/-- The local variables of the loop. -/
structure Replay (K : Type) where
  tickLower : ℤ
  tickUpper : ℤ
  curEntryPrice : K
  curPriceLower : K
  curPriceUpper : K
  cumulativeFees : K
  totalRebalances : ℕ
  daysInRange : ℕ
  realizedIlUsd : K
  lastPrice : K
  lastUnrealizedIlUsd : K
  prevFgA : ℕ
  prevFgB : ℕ
  currentDayNum : ℕ
  currentDayDate : ℤ
  dayWasInRange : Bool
  dayResults : List (DayResult K)

def feeGrowthDelta (prev curr : ℕ) : ℕ := wrappingSub (2 ^ 128) curr prev

variable {K : Type} [F64 K]

namespace DbBacktestInput

def uiFactor (input : DbBacktestInput K) : K :=
  F64.uiFactor input.decimalsA input.decimalsB

def uiPrice (input : DbBacktestInput K) (t : PoolTickRow) : K :=
  F64.sqrtQ64ToPrice t.sqrtPrice * input.uiFactor

def tickBound (input : DbBacktestInput K) (checks : Bool) (price : K) :
    Except Panic ℤ :=
  priceToTick checks (price / input.uiFactor) input.tickSpacing

def feesStep (input : DbBacktestInput K) (replay : Replay K) (price : K)
    (t : PoolTickRow) : K :=
  let posL : K := input.positionLiquidity
  let deltaA := feeGrowthDelta replay.prevFgA t.feeGrowthGlobalA
  let deltaB := feeGrowthDelta replay.prevFgB t.feeGrowthGlobalB
  let feesARaw := deltaA / F64.twoPow64 * posL
  let feesBRaw := deltaB / F64.twoPow64 * posL
  feesARaw / F64.tokenScale input.decimalsA * price + feesBRaw / F64.tokenScale input.decimalsB

end DbBacktestInput

namespace Replay

open DbBacktestInput

/-- Closes the day row when the date changes. -/
def dayBoundary (replay : Replay K) (dayDate : ℤ) : Replay K :=
  if dayDate ≠ replay.currentDayDate then
    let ilToDate := replay.realizedIlUsd + replay.lastUnrealizedIlUsd
    { replay with
      daysInRange := if replay.dayWasInRange then replay.daysInRange + 1 else replay.daysInRange
      currentDayNum := replay.currentDayNum + 1
      dayResults := replay.dayResults ++ [{
        day := replay.currentDayNum + 1
        -- the completed day's own last price, not this row's
        price := replay.lastPrice
        inRange := replay.dayWasInRange
        cumulativeFeesUsd := replay.cumulativeFees
        ilUsd := ilToDate
        netPnlUsd := replay.cumulativeFees + ilToDate }]
      currentDayDate := dayDate
      dayWasInRange := false }
  else replay

def accrue (replay : Replay K) (input : DbBacktestInput K) (i : ℕ) (price : K)
    (t : PoolTickRow) : Replay K :=
  { replay with
    -- the first row has no reference, and a row without liquidity is skipped
    cumulativeFees :=
      if 0 < i ∧ 0 < t.liquidity then replay.cumulativeFees + input.feesStep replay price t
      else replay.cumulativeFees
    prevFgA := t.feeGrowthGlobalA
    prevFgB := t.feeGrowthGlobalB }

/-- One pass of the loop up to the rebalance signal. -/
def observe (replay : Replay K) (input : DbBacktestInput K) (i : ℕ) (t : PoolTickRow) :
    Replay K :=
  let price := input.uiPrice t
  -- against the bounds in force before this row
  let inRange := decide (replay.tickLower ≤ t.tickCurrent ∧ t.tickCurrent ≤ replay.tickUpper)
  let replay := replay.dayBoundary (dateNaive t.time)
  let replay := { replay with dayWasInRange := if inRange then true else replay.dayWasInRange }
  let replay := replay.accrue input i price t
  { replay with
    lastPrice := price
    lastUnrealizedIlUsd :=
      F64.computeIl replay.curEntryPrice price replay.curPriceLower replay.curPriceUpper *
        input.initialValueUsd }

/-- Locks the segment's loss in and puts the range around the current price. -/
def recenter (replay : Replay K) (input : DbBacktestInput K) (checks : Bool) :
    Except Panic (Replay K) := do
  let price := replay.lastPrice
  let priceLower := max (price * input.rangeFactorLower) 1e-9
  let priceUpper := price * input.rangeFactorUpper
  let tickLower ← input.tickBound checks priceLower
  let tickUpper ← input.tickBound checks priceUpper
  return { replay with
    totalRebalances := replay.totalRebalances + 1
    realizedIlUsd := replay.realizedIlUsd + replay.lastUnrealizedIlUsd
    lastUnrealizedIlUsd := 0
    curEntryPrice := price
    curPriceLower := priceLower
    curPriceUpper := priceUpper
    tickLower := tickLower
    tickUpper := tickUpper }

def step (replay : Replay K) (input : DbBacktestInput K) (checks : Bool) (i : ℕ)
    (t : PoolTickRow) : Except Panic (Replay K) := do
  let replay := replay.observe input i t
  let netPnl := replay.cumulativeFees + replay.realizedIlUsd + replay.lastUnrealizedIlUsd
  let signal ← shouldRebalance checks t.tickCurrent replay.tickLower replay.tickUpper netPnl
    input.rebalanceCfg
  match signal with
  | .rebalance _ => replay.recenter input checks
  | .hold _ => return replay

def loop (input : DbBacktestInput K) (checks : Bool) :
    ℕ → Replay K → List PoolTickRow → Except Panic (Replay K)
  | _, replay, [] => .ok replay
  | i, replay, t :: ticks => do
    let replay ← replay.step input checks i t
    loop input checks (i + 1) replay ticks

/-- The variables before the loop. -/
def start (input : DbBacktestInput K) (checks : Bool) (first : PoolTickRow) :
    Except Panic (Replay K) := do
  let tickLower ← input.tickBound checks input.priceLower
  let tickUpper ← input.tickBound checks input.priceUpper
  return {
    tickLower := tickLower
    tickUpper := tickUpper
    curEntryPrice := input.entryPrice
    curPriceLower := input.priceLower
    curPriceUpper := input.priceUpper
    cumulativeFees := 0
    totalRebalances := 0
    daysInRange := 0
    realizedIlUsd := 0
    lastPrice := input.uiPrice first
    lastUnrealizedIlUsd := 0
    prevFgA := first.feeGrowthGlobalA
    prevFgB := first.feeGrowthGlobalB
    currentDayNum := 0
    currentDayDate := dateNaive first.time
    dayWasInRange := false
    dayResults := [] }

/-- The last day's row, the totals and the APY. -/
def finish (replay : Replay K) (input : DbBacktestInput K) : BacktestResult K :=
  let daysInRange := if replay.dayWasInRange then replay.daysInRange + 1 else replay.daysInRange
  let finalIlUsd := replay.realizedIlUsd + replay.lastUnrealizedIlUsd
  let finalNetPnlUsd := replay.cumulativeFees + finalIlUsd
  let totalDays := replay.currentDayNum + 1
  { paramsSnapshot := {
      entryPrice := input.entryPrice
      priceLower := input.priceLower
      priceUpper := input.priceUpper
      feeRateBps := input.feeRateBps
      annualVolPct := 0
      dailyVolumeUsd := 0
      initialValueUsd := input.initialValueUsd }
    days := replay.dayResults ++ [{
      day := totalDays
      price := replay.lastPrice
      inRange := replay.dayWasInRange
      cumulativeFeesUsd := replay.cumulativeFees
      ilUsd := finalIlUsd
      netPnlUsd := finalNetPnlUsd }]
    totalFeesUsd := replay.cumulativeFees
    totalIlUsd := finalIlUsd
    netPnlUsd := finalNetPnlUsd
    totalRebalances := replay.totalRebalances
    daysInRange := daysInRange
    feeApyPct :=
      if 0 < totalDays ∧ 0 < input.initialValueUsd then
        replay.cumulativeFees / input.initialValueUsd * ((365 : ℕ) / totalDays) * (100 : ℕ)
      else 0 }

end Replay

def runDbBacktest (checks : Bool) (input : DbBacktestInput K) :
    List PoolTickRow → Except Failure (BacktestResult K)
  | [] => .error (.bail "run_db_backtest: empty tick stream — nothing to replay")
  | first :: ticks =>
    let replayed := do
      let replay ← Replay.start input checks first
      Replay.loop input checks 0 replay (first :: ticks)
    match replayed with
    | .ok replay => .ok (replay.finish input)
    | .error panic => .error (.panic panic)

namespace Replay

@[simp] theorem dayBoundary_cumulativeFees (replay : Replay K) (dayDate : ℤ) :
    (replay.dayBoundary dayDate).cumulativeFees = replay.cumulativeFees := by
  unfold dayBoundary
  split <;> rfl

@[simp] theorem dayBoundary_prevFgA (replay : Replay K) (dayDate : ℤ) :
    (replay.dayBoundary dayDate).prevFgA = replay.prevFgA := by
  unfold dayBoundary
  split <;> rfl

@[simp] theorem dayBoundary_prevFgB (replay : Replay K) (dayDate : ℤ) :
    (replay.dayBoundary dayDate).prevFgB = replay.prevFgB := by
  unfold dayBoundary
  split <;> rfl

/-- The state before the first row. -/
structure Opened (input : DbBacktestInput K) (checks : Bool) (first : PoolTickRow)
    (opened : Replay K) : Prop where
  lower : input.tickBound checks input.priceLower = .ok opened.tickLower
  upper : input.tickBound checks input.priceUpper = .ok opened.tickUpper
  entryPrice : opened.curEntryPrice = input.entryPrice
  priceLower : opened.curPriceLower = input.priceLower
  priceUpper : opened.curPriceUpper = input.priceUpper
  fees : opened.cumulativeFees = 0
  rebalances : opened.totalRebalances = 0
  realized : opened.realizedIlUsd = 0
  unrealized : opened.lastUnrealizedIlUsd = 0
  rows : opened.dayResults = []
  dayNum : opened.currentDayNum = 0
  date : opened.currentDayDate = dateNaive first.time
  daysInRange : opened.daysInRange = 0
  wasInRange : opened.dayWasInRange = false

theorem start_ok {input : DbBacktestInput K} {checks : Bool} {first : PoolTickRow} {opened : Replay K}
    (start : Replay.start input checks first = .ok opened) : Opened input checks first opened := by
  obtain ⟨tickLower, lower, start⟩ := (bind_ok_iff ..).mp start
  obtain ⟨tickUpper, upper, start⟩ := (bind_ok_iff ..).mp start
  cases start
  exact ⟨lower, upper, rfl, rfl, rfl, rfl, rfl, rfl, rfl, rfl, rfl, rfl, rfl, rfl⟩

/-- The range that a rebalance puts around the current price. -/
structure Recentered (input : DbBacktestInput K) (checks : Bool) (replay next : Replay K) : Prop where
  lower : input.tickBound checks next.curPriceLower = .ok next.tickLower
  upper : input.tickBound checks next.curPriceUpper = .ok next.tickUpper
  moved : next = { replay with
    totalRebalances := replay.totalRebalances + 1
    realizedIlUsd := replay.realizedIlUsd + replay.lastUnrealizedIlUsd
    lastUnrealizedIlUsd := 0
    curEntryPrice := replay.lastPrice
    curPriceLower := max (replay.lastPrice * input.rangeFactorLower) 1e-9
    curPriceUpper := replay.lastPrice * input.rangeFactorUpper
    tickLower := next.tickLower
    tickUpper := next.tickUpper }

theorem recentered_of_recenter {replay next : Replay K} {input : DbBacktestInput K} {checks : Bool}
    (returned : replay.recenter input checks = .ok next) :
    Recentered input checks replay next := by
  simp only [recenter] at returned
  obtain ⟨tickLower, lower, returned⟩ := (bind_ok_iff ..).mp returned
  obtain ⟨tickUpper, upper, returned⟩ := (bind_ok_iff ..).mp returned
  cases returned
  exact ⟨lower, upper, rfl⟩

/-- A pass of the loop observes the row and then holds or re-centres. -/
theorem step_cases {replay next : Replay K} {input : DbBacktestInput K} {checks : Bool} {i : ℕ}
    {t : PoolTickRow} (returned : replay.step input checks i t = .ok next) :
    next = replay.observe input i t ∨
      Recentered input checks (replay.observe input i t) next := by
  simp only [step] at returned
  obtain ⟨signal, _, returned⟩ := (bind_ok_iff ..).mp returned
  cases signal with
  | hold reason =>
    cases returned
    exact Or.inl rfl
  | rebalance reason => exact Or.inr (recentered_of_recenter returned)

/-- Nothing but the accrual touches the fees and the growth last seen. -/
theorem step_ledger {replay next : Replay K} {input : DbBacktestInput K} {checks : Bool} {i : ℕ}
    {t : PoolTickRow} (returned : replay.step input checks i t = .ok next) :
    next.cumulativeFees =
        (if 0 < i ∧ 0 < t.liquidity then
          replay.cumulativeFees + input.feesStep replay (input.uiPrice t) t
        else replay.cumulativeFees) ∧
      next.prevFgA = t.feeGrowthGlobalA ∧ next.prevFgB = t.feeGrowthGlobalB := by
  -- the boundary before the accrual leaves fees and growth alone
  have observed : (replay.observe input i t).cumulativeFees =
      if 0 < i ∧ 0 < t.liquidity then
        replay.cumulativeFees + input.feesStep replay (input.uiPrice t) t
      else replay.cumulativeFees := by
    simp [observe, accrue, DbBacktestInput.feesStep]
  rcases step_cases returned with held | recentered
  · subst held
    exact ⟨observed, rfl, rfl⟩
  · rw [recentered.moved]
    exact ⟨observed, rfl, rfl⟩

/-- Once past the first row, rows with liquidity and a still token A are paid by the
stepwise growth of token B alone, whatever the prices, ranges and rebalances. -/
theorem loop_fees {input : DbBacktestInput ℝ} {checks : Bool} {i : ℕ} {replay last : Replay ℝ}
    (ticks : List PoolTickRow) (later : 0 < i)
    (liquid : ∀ t ∈ ticks, 0 < t.liquidity)
    (still : ∀ t ∈ ticks, t.feeGrowthGlobalA = replay.prevFgA)
    (returned : loop input checks i replay ticks = .ok last) :
    last.cumulativeFees = replay.cumulativeFees +
      (steppedGrowth (2 ^ 128) replay.prevFgB (ticks.map (·.feeGrowthGlobalB)) : ℝ) / twoPow64 *
        input.positionLiquidity / tokenScale input.decimalsB := by
  induction ticks generalizing i replay with
  | nil =>
    cases returned
    simp [steppedGrowth]
  | cons t ticks ih =>
    obtain ⟨next, stepped, rest⟩ := (bind_ok_iff ..).mp returned
    obtain ⟨fees, prevA, prevB⟩ := step_ledger stepped
    have head := still t (List.mem_cons_self ..)
    -- no growth of token A in this step
    have stepFees : input.feesStep replay (input.uiPrice t) t =
        (wrappingSub (2 ^ 128) t.feeGrowthGlobalB replay.prevFgB : ℝ) / twoPow64 *
          input.positionLiquidity / tokenScale input.decimalsB := by
      have none : feeGrowthDelta replay.prevFgA t.feeGrowthGlobalA = 0 := by
        rw [head]
        exact Machine.wrappingSub_self
      simp only [DbBacktestInput.feesStep]
      rw [none]
      simp [feeGrowthDelta]
    rw [if_pos ⟨later, liquid t (List.mem_cons_self ..)⟩, stepFees] at fees
    have induction := ih (Nat.succ_pos i)
      (fun s member => liquid s (List.mem_cons_of_mem t member))
      (fun s member => by rw [prevA, still s (List.mem_cons_of_mem t member), head]) rest
    rw [induction, fees, prevB, List.map_cons, steppedGrowth, Nat.cast_add]
    ring

end Replay

namespace DbBacktestInput

/-- What a row earns, against the row before it. -/
def rowFees (input : DbBacktestInput K) (prev t : PoolTickRow) : K :=
  let posL : K := input.positionLiquidity
  let deltaA := feeGrowthDelta prev.feeGrowthGlobalA t.feeGrowthGlobalA
  let deltaB := feeGrowthDelta prev.feeGrowthGlobalB t.feeGrowthGlobalB
  deltaA / F64.twoPow64 * posL / F64.tokenScale input.decimalsA * input.uiPrice t +
    deltaB / F64.twoPow64 * posL / F64.tokenScale input.decimalsB

/-- The fees after the rows, added up from the front on top of what has been paid. -/
def streamFees (input : DbBacktestInput K) (paid : K) : List PoolTickRow → K
  | s :: t :: ticks =>
    streamFees input (if 0 < t.liquidity then paid + input.rowFees s t else paid) (t :: ticks)
  | _ => paid

theorem streamFees_concat (input : DbBacktestInput K) (paid : K) (xs : List PoolTickRow)
    (s t : PoolTickRow) : input.streamFees paid (xs ++ [s] ++ [t]) =
      if 0 < t.liquidity then input.streamFees paid (xs ++ [s]) + input.rowFees s t
      else input.streamFees paid (xs ++ [s]) := by
  induction xs generalizing paid with
  | nil => rfl
  | cons x xs ih =>
    -- the pair at the front is the same on both sides
    cases xs with
    | nil => rfl
    | cons y xs =>
      simp only [List.cons_append, streamFees] at ih ⊢
      exact ih _

end DbBacktestInput

namespace Replay

/-- What the fees are after each row: those of the rows gone through, and the growth last seen. -/
structure Paid (input : DbBacktestInput K) (seen : List PoolTickRow) (replay : Replay K) : Prop where
  fees : replay.cumulativeFees = input.streamFees 0 seen
  growth : ∀ s ∈ seen.getLast?,
    replay.prevFgA = s.feeGrowthGlobalA ∧ replay.prevFgB = s.feeGrowthGlobalB

theorem observe_paid {replay : Replay K} {input : DbBacktestInput K} {seen : List PoolTickRow}
    (t : PoolTickRow) (paid : Paid input seen replay) :
    Paid input (seen ++ [t]) (replay.observe input seen.length t) := by
  refine ⟨?_, ?_⟩
  · simp only [observe, accrue, dayBoundary_cumulativeFees]
    rcases List.eq_nil_or_concat seen with empty | ⟨xs, s, split⟩
    · rw [empty, if_neg fun first => Nat.lt_irrefl 0 first.1, paid.fees, empty]
      rfl
    · rw [List.concat_eq_append] at split
      subst split
      -- the row before is the last one seen
      obtain ⟨prevA, prevB⟩ := paid.growth s (by rw [List.getLast?_concat]; rfl)
      rw [DbBacktestInput.streamFees_concat, ← paid.fees]
      by_cases liquid : 0 < t.liquidity
      · rw [if_pos ⟨by simp, liquid⟩, if_pos liquid]
        simp only [DbBacktestInput.rowFees, DbBacktestInput.feesStep, dayBoundary_prevFgA,
          dayBoundary_prevFgB, prevA, prevB]
      · rw [if_neg fun counted => liquid counted.2, if_neg liquid]
  · intro s last
    rw [List.getLast?_concat] at last
    cases last
    exact ⟨rfl, rfl⟩

/-- A rebalance changes neither the fees nor the growth last seen. -/
theorem step_paid {replay next : Replay K} {input : DbBacktestInput K} {checks : Bool}
    {seen : List PoolTickRow} {t : PoolTickRow} (paid : Paid input seen replay)
    (returned : replay.step input checks seen.length t = .ok next) :
    Paid input (seen ++ [t]) next := by
  have observed := observe_paid t paid
  rcases step_cases returned with held | recentered
  · rwa [held]
  · rw [recentered.moved]
    exact ⟨observed.fees, observed.growth⟩

theorem loop_paid {input : DbBacktestInput K} {checks : Bool} {replay last : Replay K}
    {seen : List PoolTickRow} (ticks : List PoolTickRow) (paid : Paid input seen replay)
    (returned : loop input checks seen.length replay ticks = .ok last) :
    Paid input (seen ++ ticks) last := by
  induction ticks generalizing seen replay with
  | nil =>
    cases returned
    rwa [List.append_nil]
  | cons t ticks ih =>
    obtain ⟨next, stepped, rest⟩ := (bind_ok_iff ..).mp returned
    have more := ih (step_paid paid stepped) (by rwa [List.length_append])
    rwa [List.append_assoc] at more

end Replay

/-- A replay that returns has gone through the loop from the first row. -/
theorem runDbBacktest_ok {checks : Bool} {input : DbBacktestInput K} {first : PoolTickRow}
    {ticks : List PoolTickRow} {result : BacktestResult K}
    (returned : runDbBacktest checks input (first :: ticks) = .ok result) :
    ∃ opened last, Replay.start input checks first = .ok opened ∧
      Replay.loop input checks 0 opened (first :: ticks) = .ok last ∧
      result = last.finish input := by
  unfold runDbBacktest at returned
  dsimp only at returned
  split at returned
  next last replayed =>
    obtain ⟨opened, start, loop⟩ := (bind_ok_iff ..).mp replayed
    cases returned
    exact ⟨opened, last, start, loop, rfl⟩
  next => cases returned

/-- The total fees are those of the rows, whatever the ranges and rebalances. -/
theorem runDbBacktest_streamFees {checks : Bool} {input : DbBacktestInput K}
    {rows : List PoolTickRow} {result : BacktestResult K}
    (returned : runDbBacktest checks input rows = .ok result) :
    result.totalFeesUsd = input.streamFees 0 rows := by
  cases rows with
  | nil => cases returned
  | cons first ticks =>
    obtain ⟨opened, last, start, loop, finished⟩ := runDbBacktest_ok returned
    have opening : Replay.Paid input [] opened := ⟨(Replay.start_ok start).fees, by simp⟩
    have paid := Replay.loop_paid (first :: ticks) opening loop
    rw [finished]
    exact paid.fees

/-- The total fees of a stream with a still token A are its stepwise growth of token B
after the first row, scaled to the position. -/
theorem runDbBacktest_fees {checks : Bool} {input : DbBacktestInput ℝ} {first : PoolTickRow}
    {ticks : List PoolTickRow} {result : BacktestResult ℝ}
    (liquid : ∀ t ∈ ticks, 0 < t.liquidity)
    (still : ∀ t ∈ ticks, t.feeGrowthGlobalA = first.feeGrowthGlobalA)
    (returned : runDbBacktest checks input (first :: ticks) = .ok result) :
    result.totalFeesUsd =
      (steppedGrowth (2 ^ 128) first.feeGrowthGlobalB (ticks.map (·.feeGrowthGlobalB)) : ℝ) /
        twoPow64 * input.positionLiquidity / tokenScale input.decimalsB := by
  obtain ⟨opened, last, start, loop, finished⟩ := runDbBacktest_ok returned
  obtain ⟨next, stepped, rest⟩ := (bind_ok_iff ..).mp loop
  -- the first row earns nothing and is the reference of the second
  obtain ⟨fees, prevA, prevB⟩ := Replay.step_ledger stepped
  rw [if_neg (fun first => Nat.lt_irrefl 0 first.1), (Replay.start_ok start).fees] at fees
  have total := Replay.loop_fees ticks Nat.one_pos liquid
    (fun t member => by rw [prevA, still t member]) rest
  rw [fees, prevB, zero_add] at total
  rw [finished]
  exact total

section Release

variable {input : DbBacktestInput K} (positive : 0 < input.tickSpacing)
include positive

theorem recenter_unchecked (replay : Replay K) : ∃ next, replay.recenter input false = .ok next := by
  obtain ⟨tickLower, lower⟩ := priceToTick_unchecked
    (max (replay.lastPrice * input.rangeFactorLower) 1e-9 / input.uiFactor) positive
  obtain ⟨tickUpper, upper⟩ := priceToTick_unchecked
    (replay.lastPrice * input.rangeFactorUpper / input.uiFactor) positive
  unfold Replay.recenter DbBacktestInput.tickBound
  dsimp only
  rw [lower, upper]
  exact ⟨_, rfl⟩

theorem step_unchecked (replay : Replay K) (i : ℕ) (t : PoolTickRow) :
    ∃ next, replay.step input false i t = .ok next := by
  unfold Replay.step
  dsimp only
  obtain ⟨signal, decided⟩ := shouldRebalance_unchecked t.tickCurrent
    (replay.observe input i t).tickLower (replay.observe input i t).tickUpper
    ((replay.observe input i t).cumulativeFees + (replay.observe input i t).realizedIlUsd +
      (replay.observe input i t).lastUnrealizedIlUsd) input.rebalanceCfg
  rw [decided]
  -- only a rebalance computes further
  cases signal with
  | hold reason => exact ⟨_, rfl⟩
  | rebalance reason => exact recenter_unchecked positive _

theorem loop_unchecked (i : ℕ) (replay : Replay K) (ticks : List PoolTickRow) :
    ∃ last, Replay.loop input false i replay ticks = .ok last := by
  induction ticks generalizing i replay with
  | nil => exact ⟨replay, rfl⟩
  | cons t ticks ih =>
    obtain ⟨next, stepped⟩ := step_unchecked positive replay i t
    obtain ⟨last, rest⟩ := ih (i + 1) next
    refine ⟨last, ?_⟩
    apply (bind_ok_iff ..).mpr
    exact ⟨next, stepped, rest⟩

/-- Where integer arithmetic wraps, every stream but the empty one has a result. -/
theorem runDbBacktest_unchecked {rows : List PoolTickRow} (listed : rows ≠ []) :
    ∃ result, runDbBacktest false input rows = .ok result := by
  obtain ⟨first, ticks, split⟩ := List.exists_cons_of_ne_nil listed
  subst split
  obtain ⟨tickLower, lower⟩ := priceToTick_unchecked (input.priceLower / input.uiFactor) positive
  obtain ⟨tickUpper, upper⟩ := priceToTick_unchecked (input.priceUpper / input.uiFactor) positive
  have opens : ∃ opened, Replay.start input false first = .ok opened := by
    simp only [Replay.start, DbBacktestInput.tickBound]
    rw [lower, upper]
    exact ⟨_, rfl⟩
  obtain ⟨opened, start⟩ := opens
  obtain ⟨last, loop⟩ := loop_unchecked positive 0 opened (first :: ticks)
  have replayed : (Replay.start input false first >>= fun replay =>
      Replay.loop input false 0 replay (first :: ticks)) = .ok last :=
    (bind_ok_iff ..).mpr ⟨opened, start, loop⟩
  refine ⟨last.finish input, ?_⟩
  simp only [runDbBacktest, replayed]

end Release

end TickLiq
