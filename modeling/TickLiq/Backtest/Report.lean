import TickLiq.Machine.Checked

/-!
# What a backtest returns

One schema for both engines. A day is a UTC calendar day.
-/
namespace TickLiq

structure DayResult (K : Type) where
  day : ℕ
  price : K
  inRange : Bool
  cumulativeFeesUsd : K
  ilUsd : K
  netPnlUsd : K

structure ParamsSnapshot (K : Type) where
  entryPrice : K
  priceLower : K
  priceUpper : K
  feeRateBps : K
  annualVolPct : K
  dailyVolumeUsd : K
  initialValueUsd : K

structure BacktestResult (K : Type) where
  paramsSnapshot : ParamsSnapshot K
  days : List (DayResult K)
  totalFeesUsd : K
  totalIlUsd : K
  netPnlUsd : K
  totalRebalances : ℕ
  daysInRange : ℕ
  feeApyPct : K

/-- How a backtest ends without a result. -/
inductive Failure where
  | bail (message : String)
  | panic (panic : Machine.Panic)
deriving DecidableEq

/-- The UTC day of a time in microseconds, counted from the epoch. -/
def dateNaive (time : ℤ) : ℤ := time / 86400000000

end TickLiq
