import TickLiq.Backtest.PriceToTick
import TickLiq.Backtest.Report
import TickLiq.Machine.Loop
import TickLiq.Strategy.Signal

/-!
# The GBM engine

`run` walks one price a day. The path stands in for the draw that moves the price;
the guard behind the draw is part of the day. A day row is made before the signal, so
it reports the loss of the segment that a rebalance of that day closes.
-/
namespace TickLiq

open Machine (Panic bind_ok_iff)

structure BacktestParams (K : Type) where
  entryPrice : K
  priceLower : K
  priceUpper : K
  feeRateBps : K
  initialValueUsd : K
  days : ℕ
  annualVolatility : K
  dailyVolumeUsd : K
  positionVolumeShare : K
  tickSpacing : ℤ
  strategyRebalance : Bool

variable {K : Type} [F64 K]

namespace BacktestParams

def feeFraction (params : BacktestParams K) : K := params.feeRateBps / (10000 : ℕ)

def rebalanceCfg (params : BacktestParams K) : RebalanceConfig K :=
  { rebalanceOutOfRange := params.strategyRebalance
    -- "only trigger on full out-of-range in backtest"
    nearEdgeTicks := 0
    minNetPnlUsd := 0 }

end BacktestParams

/-- The local variables of the loop over the days. -/
structure Gbm (K : Type) where
  entryPrice : K
  priceLower : K
  priceUpper : K
  cumulativeFees : K
  realizedIlUsd : K
  totalRebalances : ℕ
  daysInRange : ℕ
  dayResults : List (DayResult K)

namespace Gbm

def inRange (gbm : Gbm K) (price : K) : Bool :=
  decide (gbm.priceLower ≤ price ∧ price ≤ gbm.priceUpper)

def accrue (gbm : Gbm K) (params : BacktestParams K) (price : K) : Gbm K :=
  { gbm with
    daysInRange := if gbm.inRange price then gbm.daysInRange + 1 else gbm.daysInRange
    cumulativeFees := gbm.cumulativeFees +
      if gbm.inRange price then
        params.dailyVolumeUsd * params.positionVolumeShare * params.feeFraction
      else 0 }

def unrealizedIlUsd (gbm : Gbm K) (params : BacktestParams K) (price : K) : K :=
  F64.computeIl gbm.entryPrice price gbm.priceLower gbm.priceUpper * params.initialValueUsd

def ilToDate (gbm : Gbm K) (params : BacktestParams K) (price : K) : K :=
  gbm.realizedIlUsd + gbm.unrealizedIlUsd params price

def netPnl (gbm : Gbm K) (params : BacktestParams K) (price : K) : K :=
  gbm.cumulativeFees + gbm.ilToDate params price

def signal (gbm : Gbm K) (params : BacktestParams K) (checks : Bool) (price : K) :
    Except Panic RebalanceDecision := do
  let tickCurrent ← priceToTick checks price params.tickSpacing
  let tickLower ← priceToTick checks gbm.priceLower params.tickSpacing
  let tickUpper ← priceToTick checks gbm.priceUpper params.tickSpacing
  shouldRebalance checks tickCurrent tickLower tickUpper (gbm.netPnl params price)
    params.rebalanceCfg

/-- Locks the segment's loss in and puts a range of the same width around the price. -/
def recenter (gbm : Gbm K) (params : BacktestParams K) (price : K) : Gbm K :=
  let halfWidth := (gbm.priceUpper - gbm.priceLower) / (2 : ℕ)
  { gbm with
    totalRebalances := gbm.totalRebalances + 1
    realizedIlUsd := gbm.realizedIlUsd + gbm.unrealizedIlUsd params price
    entryPrice := price
    priceLower := max (price - halfWidth) 1e-6
    priceUpper := price + halfWidth }

def rebalanceDay (gbm : Gbm K) (params : BacktestParams K) (checks : Bool) (price : K) :
    Except Panic (Gbm K) := do
  if params.strategyRebalance then
    let signal ← gbm.signal params checks price
    match signal with
    | .rebalance _ => return gbm.recenter params price
    | .hold _ => return gbm
  else return gbm

/-- The row of a day, before its rebalance. -/
def dayRow (gbm : Gbm K) (params : BacktestParams K) (day : ℕ) (price : K) : DayResult K :=
  { day := day
    price := price
    inRange := gbm.inRange price
    cumulativeFeesUsd := gbm.cumulativeFees
    ilUsd := gbm.ilToDate params price
    netPnlUsd := gbm.netPnl params price }

def step (gbm : Gbm K) (params : BacktestParams K) (checks : Bool) (day : ℕ)
    (drawn : K) : Except Panic (Gbm K) := do
  -- guard against degenerate paths
  let price := max drawn 1e-6
  let gbm := gbm.accrue params price
  let next ← gbm.rebalanceDay params checks price
  return { next with dayResults := next.dayResults ++ [gbm.dayRow params day price] }

def loop (params : BacktestParams K) (checks : Bool) :
    ℕ → Gbm K → List K → Except Panic (Gbm K) :=
  Machine.loop fun day gbm drawn => gbm.step params checks day drawn

def start (params : BacktestParams K) : Gbm K :=
  { entryPrice := params.entryPrice
    priceLower := params.priceLower
    priceUpper := params.priceUpper
    cumulativeFees := 0
    realizedIlUsd := 0
    totalRebalances := 0
    daysInRange := 0
    dayResults := [] }

/-- Totals come from the last row and are zero without one. -/
def finish (gbm : Gbm K) (params : BacktestParams K) : BacktestResult K :=
  let last := gbm.dayResults.getLast?
  let totalFees := (last.map (·.cumulativeFeesUsd)).getD 0
  let totalIl := (last.map (·.ilUsd)).getD 0
  { paramsSnapshot := {
      entryPrice := params.entryPrice
      priceLower := params.priceLower
      priceUpper := params.priceUpper
      feeRateBps := params.feeRateBps
      annualVolPct := params.annualVolatility * (100 : ℕ)
      dailyVolumeUsd := params.dailyVolumeUsd
      initialValueUsd := params.initialValueUsd }
    days := gbm.dayResults
    totalFeesUsd := totalFees
    totalIlUsd := totalIl
    netPnlUsd := totalFees + totalIl
    totalRebalances := gbm.totalRebalances
    daysInRange := gbm.daysInRange
    feeApyPct :=
      if 0 < params.days ∧ 0 < params.initialValueUsd then
        totalFees / params.initialValueUsd * ((365 : ℕ) / params.days) * (100 : ℕ)
      else 0 }

/-- The prices drawn on the days `1..=days`. -/
def drawn (params : BacktestParams K) (path : ℕ → K) : List K := (List.range' 1 params.days).map path

/-- `backtest::run` on a price path. -/
def run (checks : Bool) (params : BacktestParams K) (path : ℕ → K) :
    Except Panic (BacktestResult K) := do
  let gbm ← loop params checks 1 (start params) (drawn params path)
  return gbm.finish params

end Gbm

namespace Gbm

variable {params : BacktestParams K} {checks : Bool}

/-- The signal decides a day's rebalance, and only with the strategy switched on. -/
theorem rebalanceDay_cases {gbm next : Gbm K} {price : K}
    (returned : gbm.rebalanceDay params checks price = .ok next) :
    (next = gbm ∧ (params.strategyRebalance = true →
      ∃ reason, gbm.signal params checks price = .ok (.hold reason))) ∨
    (next = gbm.recenter params price ∧ params.strategyRebalance = true ∧
      ∃ reason, gbm.signal params checks price = .ok (.rebalance reason)) := by
  simp only [rebalanceDay] at returned
  split at returned
  next on =>
    obtain ⟨signal, decided, returned⟩ := (bind_ok_iff ..).mp returned
    cases signal with
    | hold reason =>
      cases returned
      exact Or.inl ⟨rfl, fun _ => ⟨reason, decided⟩⟩
    | rebalance reason =>
      cases returned
      exact Or.inr ⟨rfl, on, reason, decided⟩
  next off =>
    cases returned
    exact Or.inl ⟨rfl, fun on => absurd on off⟩

theorem step_ok {gbm next : Gbm K} {day : ℕ} {drawn : K}
    (returned : gbm.step params checks day drawn = .ok next) :
    ∃ rested, (gbm.accrue params (max drawn 1e-6)).rebalanceDay params checks (max drawn 1e-6) =
        .ok rested ∧
      next = { rested with dayResults := rested.dayResults ++
        [(gbm.accrue params (max drawn 1e-6)).dayRow params day (max drawn 1e-6)] } := by
  obtain ⟨rested, decided, returned⟩ := (bind_ok_iff ..).mp returned
  cases returned
  exact ⟨rested, decided, rfl⟩

theorem run_ok {path : ℕ → K} {result : BacktestResult K} :
    run checks params path = .ok result ↔ ∃ last,
      loop params checks 1 (start params) (drawn params path) = .ok last ∧
        result = last.finish params := by
  refine (bind_ok_iff ..).trans ?_
  constructor
  · intro returned
    obtain ⟨last, through, finished⟩ := returned
    cases finished
    exact ⟨last, through, rfl⟩
  · intro returned
    obtain ⟨last, through, finished⟩ := returned
    exact ⟨last, through, finished ▸ rfl⟩

theorem rebalanceDay_unchecked (positive : 0 < params.tickSpacing) (gbm : Gbm K) (price : K) :
    ∃ next, gbm.rebalanceDay params false price = .ok next := by
  simp only [rebalanceDay]
  split
  next =>
    obtain ⟨tickCurrent, current⟩ := priceToTick_unchecked price positive
    obtain ⟨tickLower, lower⟩ := priceToTick_unchecked gbm.priceLower positive
    obtain ⟨tickUpper, upper⟩ := priceToTick_unchecked gbm.priceUpper positive
    obtain ⟨decision, decided⟩ := shouldRebalance_unchecked tickCurrent tickLower tickUpper
      (gbm.netPnl params price) params.rebalanceCfg
    have signal : gbm.signal params false price = .ok decision := by
      simp only [Gbm.signal, current, lower, upper]
      exact decided
    rw [signal]
    cases decision with
    | hold reason => exact ⟨gbm, rfl⟩
    | rebalance reason => exact ⟨gbm.recenter params price, rfl⟩
  next => exact ⟨gbm, rfl⟩

theorem step_unchecked (positive : 0 < params.tickSpacing) (gbm : Gbm K) (day : ℕ) (drawn : K) :
    ∃ next, gbm.step params false day drawn = .ok next := by
  obtain ⟨rested, decided⟩ := rebalanceDay_unchecked positive
    (gbm.accrue params (max drawn 1e-6)) (max drawn 1e-6)
  exact ⟨_, (bind_ok_iff ..).mpr ⟨rested, decided, rfl⟩⟩

/-- Where integer arithmetic wraps, every price path has a result. -/
theorem run_unchecked (positive : 0 < params.tickSpacing) (path : ℕ → K) :
    ∃ result, run false params path = .ok result := by
  obtain ⟨last, through⟩ := Machine.loop_total
    (fun day gbm drawn => step_unchecked positive gbm day drawn) 1 (start params)
    (drawn params path)
  exact ⟨last.finish params, run_ok.mpr ⟨last, through, rfl⟩⟩

end Gbm

/-- Two days of a rebalanced position around price one. -/
noncomputable def sampleParams : BacktestParams ℝ :=
  ⟨1, 0.5, 1.5, 1, 1, 2, 0, (10000 : ℕ), 1, 1, true⟩

end TickLiq
