import Mathlib.Analysis.SpecialFunctions.Pow.Real

/-!
# Risk metrics

Metrics of a daily equity curve over exact reals. None of them knows the size of the
position: a positive factor on the whole curve leaves them as they are.
-/
namespace TickLiq

/-- `PERIODS_PER_YEAR` -/
noncomputable def periodsPerYear : ℝ := (365 : ℕ)

structure RiskMetrics where
  annualVolatility : ℝ
  sharpe : Option ℝ
  sortino : Option ℝ
  maxDrawdown : ℝ
  calmar : Option ℝ
  totalReturn : ℝ

noncomputable def equityCurve (initialValueUsd : ℝ) (dailyCumulativeNetPnl : List ℝ) : List ℝ :=
  initialValueUsd :: dailyCumulativeNetPnl.map fun net => initialValueUsd + net

/-- Steps from a value of zero are skipped. -/
noncomputable def dailyReturns : List ℝ → List ℝ
  | prev :: cur :: equity =>
    if prev = 0 then dailyReturns (cur :: equity)
    else (cur - prev) / prev :: dailyReturns (cur :: equity)
  | _ => []

noncomputable def mean (xs : List ℝ) : ℝ := if xs = [] then 0 else xs.sum / xs.length

noncomputable def sampleStd (xs : List ℝ) : ℝ :=
  if xs.length < 2 then 0
  else √((xs.map fun x => (x - mean xs) ^ 2).sum / (xs.length - 1))

noncomputable def annualizedVolatility (returns : List ℝ) : ℝ :=
  sampleStd returns * √periodsPerYear

noncomputable def annualizedSharpe (returns : List ℝ) : Option ℝ :=
  let sd := sampleStd returns
  if sd = 0 then none else some (mean returns / sd * √periodsPerYear)

noncomputable def annualizedSortino (returns : List ℝ) : Option ℝ :=
  if returns = [] then none
  else
    let downsideSq := (returns.map fun r => (min r 0) ^ 2).sum
    if downsideSq = 0 then none
    else
      let downsideDev := √(downsideSq / returns.length)
      some (mean returns / downsideDev * √periodsPerYear)

/-- The peak after one more value; there is none, minus infinity, before the first. -/
noncomputable def raisePeak (peak : Option ℝ) (v : ℝ) : ℝ :=
  match peak with
  | some peak => if peak < v then v else peak
  | none => v

noncomputable def drawdownStep (state : Option ℝ × ℝ) (v : ℝ) : Option ℝ × ℝ :=
  let peak := raisePeak state.1 v
  let maxDd :=
    if 0 < peak then
      let dd := (v - peak) / peak
      if dd < state.2 then dd else state.2
    else state.2
  (some peak, maxDd)

noncomputable def maxDrawdown (equity : List ℝ) : ℝ := (equity.foldl drawdownStep (none, 0)).2

noncomputable def annualizedReturn (equity : List ℝ) : ℝ :=
  let nPeriods := equity.length - 1
  match equity.head?, equity.getLast? with
  | some first, some last =>
    if 0 < first ∧ 0 < last ∧ 0 < nPeriods then (last / first) ^ (periodsPerYear / nPeriods) - 1
    else 0
  | _, _ => 0

noncomputable def calmar (annualReturn maxDrawdown : ℝ) : Option ℝ :=
  if maxDrawdown = 0 then none else some (annualReturn / |maxDrawdown|)

noncomputable def totalReturn (equity : List ℝ) : ℝ :=
  match equity.head?, equity.getLast? with
  | some first, some last => if first ≠ 0 then (last - first) / first else 0
  | _, _ => 0

namespace RiskMetrics

noncomputable def fromEquity (equity : List ℝ) : RiskMetrics :=
  let returns := dailyReturns equity
  let drawdown := TickLiq.maxDrawdown equity
  { annualVolatility := annualizedVolatility returns
    sharpe := annualizedSharpe returns
    sortino := annualizedSortino returns
    maxDrawdown := drawdown
    calmar := TickLiq.calmar (annualizedReturn equity) drawdown
    totalReturn := TickLiq.totalReturn equity }

noncomputable def fromBacktest (initialValueUsd : ℝ) (dailyCumulativeNetPnl : List ℝ) :
    RiskMetrics :=
  fromEquity (equityCurve initialValueUsd dailyCumulativeNetPnl)

end RiskMetrics

section Scale

variable {k : ℝ} (positive : 0 < k)

theorem equityCurve_scale (k initialValueUsd : ℝ) (nets : List ℝ) :
    equityCurve (k * initialValueUsd) (nets.map fun net => k * net) =
      (equityCurve initialValueUsd nets).map fun v => k * v := by
  simp only [equityCurve, List.map_cons, List.map_map, Function.comp_def, mul_add]

include positive

theorem scaled_ratio (x y : ℝ) : k * x / (k * y) = x / y := mul_div_mul_left x y positive.ne'

theorem dailyReturns_scale (equity : List ℝ) :
    dailyReturns (equity.map fun v => k * v) = dailyReturns equity := by
  induction equity with
  | nil => rfl
  | cons prev equity ih =>
    cases equity with
    | nil => rfl
    | cons cur equity =>
      have zero : k * prev = 0 ↔ prev = 0 := mul_eq_zero_iff_left positive.ne'
      rw [List.map_cons] at ih ⊢
      rw [List.map_cons, dailyReturns, dailyReturns, ih, ← mul_sub, scaled_ratio positive]
      simp only [zero]

theorem raisePeak_scale (peak : Option ℝ) (v : ℝ) :
    raisePeak (peak.map fun v => k * v) (k * v) = k * raisePeak peak v := by
  cases peak with
  | none => rfl
  | some peak =>
    have above : k * peak < k * v ↔ peak < v := mul_lt_mul_iff_right₀ positive
    simp only [raisePeak, Option.map_some, above]
    split <;> rfl

theorem drawdownStep_scale (peak : Option ℝ) (maxDd v : ℝ) :
    drawdownStep (peak.map fun v => k * v, maxDd) (k * v) =
      ((drawdownStep (peak, maxDd) v).1.map fun v => k * v, (drawdownStep (peak, maxDd) v).2) := by
  have above : 0 < k * raisePeak peak v ↔ 0 < raisePeak peak v := mul_pos_iff_of_pos_left positive
  simp only [drawdownStep, raisePeak_scale positive, ← mul_sub, scaled_ratio positive, above,
    Option.map_some]

theorem maxDrawdown_scale (equity : List ℝ) :
    maxDrawdown (equity.map fun v => k * v) = maxDrawdown equity := by
  have folded : ∀ peak maxDd, ((equity.map fun v => k * v).foldl drawdownStep
      (peak.map fun v => k * v, maxDd)).2 = (equity.foldl drawdownStep (peak, maxDd)).2 := by
    induction equity with
    | nil => exact fun peak maxDd => rfl
    | cons v equity ih =>
      intro peak maxDd
      rw [List.map_cons, List.foldl_cons, List.foldl_cons, drawdownStep_scale positive]
      exact ih _ _
  exact folded none 0

theorem annualizedReturn_scale (equity : List ℝ) :
    annualizedReturn (equity.map fun v => k * v) = annualizedReturn equity := by
  have above : ∀ v, 0 < k * v ↔ 0 < v := fun v => mul_pos_iff_of_pos_left positive
  simp only [annualizedReturn, List.length_map, List.head?_map, List.getLast?_map]
  cases equity.head? with
  | none => rfl
  | some first =>
    cases equity.getLast? with
    | none => rfl
    | some last => simp only [Option.map_some, above, scaled_ratio positive]

theorem totalReturn_scale (equity : List ℝ) :
    totalReturn (equity.map fun v => k * v) = totalReturn equity := by
  have zero : ∀ v, k * v = 0 ↔ v = 0 := fun v => mul_eq_zero_iff_left positive.ne'
  simp only [totalReturn, List.head?_map, List.getLast?_map]
  cases equity.head? with
  | none => rfl
  | some first =>
    cases equity.getLast? with
    | none => rfl
    | some last => simp only [Option.map_some, ne_eq, zero, ← mul_sub, scaled_ratio positive]

/-- Scaling capital and P&L together changes no metric. -/
theorem fromBacktest_scale (initialValueUsd : ℝ) (nets : List ℝ) :
    RiskMetrics.fromBacktest (k * initialValueUsd) (nets.map fun net => k * net) =
      RiskMetrics.fromBacktest initialValueUsd nets := by
  simp only [RiskMetrics.fromBacktest, RiskMetrics.fromEquity, equityCurve_scale,
    dailyReturns_scale positive, maxDrawdown_scale positive, annualizedReturn_scale positive,
    totalReturn_scale positive]

end Scale

end TickLiq
