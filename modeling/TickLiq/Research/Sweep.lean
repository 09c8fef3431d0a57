import TickLiq.Analytics.Amounts
import TickLiq.Backtest.Backfill
import TickLiq.Machine.Collecting
import TickLiq.Machine.Decimal
import TickLiq.Math.Metrics

/-!
# The research sweep

`research::run` replays every pool at every width and rebalance variant. Some failures of
a pool are skipped and some leave the whole sweep; the rows of the others are kept exactly
as long as none of the second kind happens.
-/
namespace TickLiq.Research

open Machine

/-- What ends a sweep. -/
inductive SweepError where
  | bail (message : String)
  /-- Under the context `backtest {} w={width}`. -/
  | backtest (label : String) (width : ℝ) (message : String)
  | panic (panic : Panic)

structure Settings where
  fromDay : String
  toDay : String
  timeframe : String
  capitalUsd : ℝ
  rangeWidths : List ℝ
  rebalance : List Bool

structure PoolCfg where
  label : String
  address : String
  feeBps : ℝ
  decimalsA : ℕ
  decimalsB : ℕ
  tickSpacing : ℤ
  poolLiquidity : String

structure Config where
  settings : Settings
  pools : List PoolCfg

structure RunResult where
  label : String
  address : String
  rangeWidth : ℝ
  rebalance : Bool
  capitalUsd : ℝ
  poolShare : ℝ
  days : ℕ
  totalRebalances : ℕ
  totalFeesUsd : ℝ
  ilUsd : ℝ
  netPnlUsd : ℝ
  netPct : ℝ
  feeApyPct : ℝ
  daysInRangePct : ℝ
  realizedVol : ℝ
  sharpe : Option ℝ
  sortino : Option ℝ
  maxDrawdown : ℝ

/-- The build, the whirlpool crate, the date parser and what each fetch brings. -/
structure Env where
  checks : Bool
  core : WhirlpoolsCore
  /-- `NaiveDate::from_str`, in days from the epoch. -/
  naiveDate : String → Option ℤ
  fetchRange : String → String → ℤ → ℤ → Except String (List (OhlcvCandle ℝ))

/-- `NEAR_EDGE_OFF` -/
def nearEdgeOff : ℤ := -1000000

def Settings.rebalanceVariants (s : Settings) : List Bool :=
  if s.rebalance = [] then [false] else s.rebalance

/-- `periods_per_year` -/
noncomputable def framePeriods (timeframe : String) : ℝ :=
  if timeframe = "hour" then ((365 * 24 : ℕ) : ℝ)
  else if timeframe = "minute" then ((365 * 24 * 60 : ℕ) : ℝ)
  else ((365 : ℕ) : ℝ)

/-- `f as u128` -/
noncomputable def castU128 (f : ℝ) : ℕ := if (2 ^ 128 - 1 : ℕ) ≤ f then 2 ^ 128 - 1 else ⌊f⌋₊

def PoolCfg.synthParams (pool : PoolCfg) (poolL : ℕ) : PoolSynthParams ℝ where
  poolAddress := pool.address
  feeRateBps := pool.feeBps
  poolLiquidity := poolL
  decimalsA := pool.decimalsA
  decimalsB := pool.decimalsB
  tickSpacing := pool.tickSpacing

/-- The variables of one pool's iteration. -/
structure History where
  pool : PoolCfg
  poolL : ℕ
  entry : ℝ
  rows : List PoolTickRow
  realizedVol : ℝ

/-- `candles[0].close`; three candles there are at least. -/
def entryClose : List (OhlcvCandle ℝ) → ℝ
  | [] => 0
  | first :: _ => first.close

namespace Env

variable (env : Env)

def parseDay (s : String) : Except SweepError ℤ :=
  match env.naiveDate s with
  | some day => .ok (day * 86400)
  | none => .error (.bail s!"invalid date '{s}' (expected YYYY-MM-DD)")

/-- `Ok(c) if c.len() >= 3` -/
def candles (s : Settings) (fromTs toTs : ℤ) (pool : PoolCfg) : Option (List (OhlcvCandle ℝ)) :=
  match env.fetchRange pool.address s.timeframe fromTs toTs with
  | .ok c => if 3 ≤ c.length then some c else none
  | .error _ => none

/-- What the pool's own liquidity would hold in the range around the entry price. -/
noncomputable def rangeAmounts (pool : PoolCfg) (poolL : ℕ) (entry width : ℝ) :
    Except SweepError TokenAmounts := do
  let lower := entry * (1 - width)
  let upper := entry * (1 + width)
  let uiFactor := uiFactor pool.decimalsA pool.decimalsB
  let tickLower ← (priceToTick env.checks (lower / uiFactor) pool.tickSpacing).mapError .panic
  let tickUpper ← (priceToTick env.checks (upper / uiFactor) pool.tickSpacing).mapError .panic
  (computeTokenAmounts env.core poolL (priceToSqrtQ64 (entry / uiFactor)) tickLower
    tickUpper).mapError .bail

end Env

namespace History

variable (h : History) (env : Env) (s : Settings) (width : ℝ)

noncomputable def valueAtPoolL (amt : TokenAmounts) : ℝ :=
  amt.amountA / tokenScale h.pool.decimalsA * h.entry + amt.amountB / tokenScale h.pool.decimalsB

/-- The liquidity whose value at entry is the capital. -/
noncomputable def positionLiquidity (amt : TokenAmounts) : ℕ :=
  castU128 (h.poolL * s.capitalUsd / h.valueAtPoolL amt)

noncomputable def input (amt : TokenAmounts) (rebalance : Bool) : DbBacktestInput ℝ where
  initialValueUsd := s.capitalUsd
  entryPrice := h.entry
  priceLower := h.entry * (1 - width)
  priceUpper := h.entry * (1 + width)
  feeRateBps := h.pool.feeBps
  tickSpacing := h.pool.tickSpacing
  positionLiquidity := h.positionLiquidity s amt
  decimalsA := h.pool.decimalsA
  decimalsB := h.pool.decimalsB
  rebalanceCfg := {
    rebalanceOutOfRange := rebalance
    nearEdgeTicks := nearEdgeOff
    minNetPnlUsd := 0 }
  rangeFactorLower := 1 - width
  rangeFactorUpper := 1 + width

noncomputable def result (amt : TokenAmounts) (rebalance : Bool) (res : BacktestResult ℝ) :
    RunResult :=
  let m := RiskMetrics.fromBacktest s.capitalUsd (res.days.map DayResult.netPnlUsd)
  let n := max res.days.length 1
  { label := h.pool.label
    address := h.pool.address
    rangeWidth := width
    rebalance := rebalance
    capitalUsd := s.capitalUsd
    poolShare := h.positionLiquidity s amt / h.poolL
    days := res.days.length
    totalRebalances := res.totalRebalances
    totalFeesUsd := res.totalFeesUsd
    ilUsd := res.totalIlUsd
    netPnlUsd := res.netPnlUsd
    netPct := res.netPnlUsd / s.capitalUsd * (100 : ℕ)
    feeApyPct := res.feeApyPct
    daysInRangePct := res.daysInRange / n * (100 : ℕ)
    realizedVol := h.realizedVol
    sharpe := m.sharpe
    sortino := m.sortino
    maxDrawdown := m.maxDrawdown }

/-- The body of the innermost loop. -/
noncomputable def pushCell (amt : TokenAmounts) (_ : ℕ) (out : List RunResult) (rebalance : Bool) :
    Except SweepError (List RunResult) :=
  match runDbBacktest env.checks (h.input s width amt rebalance) h.rows with
  | .ok res => .ok (out ++ [h.result s width amt rebalance res])
  | .error (.bail message) => .error (.backtest h.pool.label width message)
  | .error (.panic panic) => .error (.panic panic)

/-- The body of the loop over the widths. -/
noncomputable def pushWidth (_ : ℕ) (out : List RunResult) (width : ℝ) :
    Except SweepError (List RunResult) := do
  let amt ← env.rangeAmounts h.pool h.poolL h.entry width
  -- `continue`: nothing to scale to the capital
  if h.valueAtPoolL amt ≤ 0 then return out
  else loop (h.pushCell env s width amt) 0 out s.rebalanceVariants

end History

namespace Env

variable (env : Env) (s : Settings) (fromTs toTs : ℤ)

noncomputable def history (pool : PoolCfg) (poolL : ℕ) (candles : List (OhlcvCandle ℝ)) :
    Except SweepError History := do
  let ticks ← (synthesizeTicks env.checks candles (pool.synthParams poolL)).mapError .panic
  return {
    pool := pool
    poolL := poolL
    entry := entryClose candles
    rows := toRows ticks
    realizedVol := annualizedVolatility (dailyReturns (candles.map OhlcvCandle.close)) *
      √(framePeriods s.timeframe / (365 : ℕ)) }

/-- The body of the loop over the pools. -/
noncomputable def pushPool (_ : ℕ) (out : List RunResult) (pool : PoolCfg) :
    Except SweepError (List RunResult) :=
  match parseUnsigned (2 ^ 128) pool.poolLiquidity.toList with
  | none =>
    let label := pool.label
    .error (.bail s!"pool '{label}' liquidity is not a u128")
  | some poolL =>
    if poolL = 0 then .ok out
    else
      match env.candles s fromTs toTs pool with
      -- the fetch failed or brought too little
      | none => .ok out
      | some candles => do
        let h ← env.history s pool poolL candles
        loop (h.pushWidth env s) 0 out s.rangeWidths

noncomputable def run (cfg : Config) : Except SweepError (List RunResult) := do
  let fromTs ← env.parseDay cfg.settings.fromDay
  let toTs ← env.parseDay cfg.settings.toDay
  if toTs ≤ fromTs then .error (.bail "settings.to must be after settings.from")
  else loop (env.pushPool cfg.settings fromTs toTs) 0 [] cfg.pools

end Env

/-! ### What each loop collects -/

namespace History

variable {h : History} {env : Env} {s : Settings} {width : ℝ} {amt : TokenAmounts}

/-- The width's range has amounts, and where they are worth something every variant replays. -/
def Replays (h : History) (env : Env) (s : Settings) (width : ℝ) : Prop :=
  ∃ amt, env.rangeAmounts h.pool h.poolL h.entry width = .ok amt ∧
    (0 < h.valueAtPoolL amt → ∀ rebalance ∈ s.rebalanceVariants,
      ∃ res, runDbBacktest env.checks (h.input s width amt rebalance) h.rows = .ok res)

theorem pushCell_appends : Appends (h.pushCell env s width amt) (h.pushCell env s width amt 0 []) := by
  intro i out rebalance
  unfold pushCell
  cases runDbBacktest env.checks (h.input s width amt rebalance) h.rows with
  | ok res => simp [Except.map]
  | error failure =>
    cases failure with
    | bail message => rfl
    | panic panic => rfl

theorem pushCell_returns_iff (rebalance : Bool) :
    (∃ rows, h.pushCell env s width amt 0 [] rebalance = .ok rows) ↔
      ∃ res, runDbBacktest env.checks (h.input s width amt rebalance) h.rows = .ok res := by
  unfold pushCell
  cases runDbBacktest env.checks (h.input s width amt rebalance) h.rows with
  | ok res => simp
  | error failure =>
    cases failure with
    | bail message => simp
    | panic panic => simp

theorem pushWidth_appends : Appends (h.pushWidth env s) (h.pushWidth env s 0 []) := by
  intro i out width
  unfold pushWidth
  cases env.rangeAmounts h.pool h.poolL h.entry width with
  | error e => rfl
  | ok amt =>
    rw [ok_bind, ok_bind]
    split
    · -- a width that is worth nothing appends no row
      simp [pure, Except.pure, Except.map]
    · exact loop_appends pushCell_appends _ 0 out

theorem pushWidth_returns_iff (width : ℝ) :
    (∃ rows, h.pushWidth env s 0 [] width = .ok rows) ↔ h.Replays env s width := by
  unfold pushWidth Replays
  cases env.rangeAmounts h.pool h.poolL h.entry width with
  | error e =>
    constructor
    · rintro ⟨rows, returned⟩
      cases returned
    · rintro ⟨amt, returned, _⟩
      cases returned
  | ok amt =>
    rw [ok_bind]
    split
    -- a width that is worth nothing is skipped without a replay
    next worthless =>
      constructor
      · intro _
        exact ⟨amt, rfl, fun worth => absurd worth (not_lt.mpr worthless)⟩
      · intro _
        exact ⟨[], rfl⟩
    next worth =>
      rw [loop_collects_iff pushCell_appends]
      simp only [pushCell_returns_iff]
      constructor
      · intro replayed
        exact ⟨amt, rfl, fun _ => replayed⟩
      · rintro ⟨amt', same, replayed⟩
        cases same
        exact replayed (not_le.mp worth)

end History

namespace Env

variable {env : Env} {s : Settings} {fromTs toTs : ℤ}

/-- The dates of the sweep are read, and in order. -/
def Dates (env : Env) (s : Settings) (fromTs toTs : ℤ) : Prop :=
  env.parseDay s.fromDay = .ok fromTs ∧ env.parseDay s.toDay = .ok toTs ∧ fromTs < toTs

/-- The pool's liquidity is a `u128`, and unless it is zero or the candles are too few the
pool has a history that replays at every width. -/
def Passes (env : Env) (s : Settings) (fromTs toTs : ℤ) (pool : PoolCfg) : Prop :=
  ∃ poolL, parseUnsigned (2 ^ 128) pool.poolLiquidity.toList = some poolL ∧
    (poolL ≠ 0 → ∀ candles, env.candles s fromTs toTs pool = some candles →
      ∃ h, env.history s pool poolL candles = .ok h ∧ ∀ width ∈ s.rangeWidths, h.Replays env s width)

theorem candles_listed {pool : PoolCfg} {candles : List (OhlcvCandle ℝ)}
    (fetched : env.candles s fromTs toTs pool = some candles) : candles ≠ [] := by
  unfold Env.candles at fetched
  split at fetched
  next c _ =>
    split at fetched
    next long =>
      cases fetched
      exact List.ne_nil_of_length_pos (by omega)
    next => cases fetched
  next => cases fetched

theorem pushPool_appends :
    Appends (env.pushPool s fromTs toTs) (env.pushPool s fromTs toTs 0 []) := by
  intro i out pool
  unfold pushPool
  cases parseUnsigned (2 ^ 128) pool.poolLiquidity.toList with
  | none => rfl
  | some poolL =>
    dsimp only
    split
    · simp [Except.map]
    · cases env.candles s fromTs toTs pool with
      | none => simp [Except.map]
      | some candles =>
        dsimp only
        cases env.history s pool poolL candles with
        | error e => rfl
        | ok h => exact loop_appends History.pushWidth_appends _ 0 out

theorem pushPool_returns_iff (pool : PoolCfg) :
    (∃ rows, env.pushPool s fromTs toTs 0 [] pool = .ok rows) ↔ env.Passes s fromTs toTs pool := by
  unfold pushPool Passes
  cases parseUnsigned (2 ^ 128) pool.poolLiquidity.toList with
  -- the text is no `u128`, and the sweep ends
  | none => simp
  | some poolL =>
    simp only [Option.some.injEq, exists_eq_left']
    split
    -- no liquidity, or too few candles: skipped, whatever the widths are
    next zero => simp [zero]
    next some =>
      cases env.candles s fromTs toTs pool with
      | none => simp
      | some candles =>
        simp only [ne_eq, some, not_false_iff, forall_const, Option.some.injEq, forall_eq']
        cases env.history s pool poolL candles with
        | error e =>
          constructor
          · rintro ⟨rows, returned⟩
            cases returned
          · rintro ⟨h, returned, _⟩
            cases returned
        | ok h =>
          rw [ok_bind, loop_collects_iff History.pushWidth_appends]
          simp only [History.pushWidth_returns_iff, Except.ok.injEq, exists_eq_left']

theorem run_of_dates (dates : env.Dates s fromTs toTs) (pools : List PoolCfg) :
    env.run ⟨s, pools⟩ = loop (env.pushPool s fromTs toTs) 0 [] pools := by
  obtain ⟨first, last, order⟩ := dates
  simp only [run, first, last, ok_bind, if_neg (not_le.mpr order)]

theorem dates_of_run {cfg : Config} {rows : List RunResult} (returned : env.run cfg = .ok rows) :
    ∃ fromTs toTs, env.Dates cfg.settings fromTs toTs := by
  obtain ⟨fromTs, first, returned⟩ := (bind_ok_iff ..).mp returned
  obtain ⟨toTs, last, returned⟩ := (bind_ok_iff ..).mp returned
  split at returned
  · cases returned
  · next order => exact ⟨fromTs, toTs, first, last, not_le.mp order⟩

theorem run_alone (dates : env.Dates s fromTs toTs) (pool : PoolCfg) :
    env.run ⟨s, [pool]⟩ = env.pushPool s fromTs toTs 0 [] pool := by
  rw [run_of_dates dates, loop_singleton]

/-- A pool with a history is replayed at every width. -/
theorem pushPool_reached {pool : PoolCfg} {poolL : ℕ} {candles : List (OhlcvCandle ℝ)} {h : History}
    (read : parseUnsigned (2 ^ 128) pool.poolLiquidity.toList = some poolL) (some : poolL ≠ 0)
    (fetched : env.candles s fromTs toTs pool = .some candles)
    (made : env.history s pool poolL candles = .ok h) (i : ℕ) (out : List RunResult) :
    env.pushPool s fromTs toTs i out pool = loop (h.pushWidth env s) 0 out s.rangeWidths := by
  simp only [pushPool, read, if_neg some, fetched, made, ok_bind]

end Env

/-! ### A build without overflow checks -/

section Unchecked

variable {env : Env} {s : Settings} {pool : PoolCfg} (unchecked : env.checks = false)
  (spacing : 0 < pool.tickSpacing)
include unchecked spacing

theorem history_unchecked (poolL : ℕ) {candles : List (OhlcvCandle ℝ)} (listed : candles ≠ []) :
    ∃ h, env.history s pool poolL candles = .ok h ∧ h.pool = pool ∧ h.poolL = poolL ∧
      h.entry = entryClose candles ∧ h.rows ≠ [] := by
  have spacing : 0 < (pool.synthParams poolL).tickSpacing := spacing
  obtain ⟨ticks, synthesized⟩ := synthesizeTicks_unchecked spacing candles
  have rows : toRows ticks ≠ [] := synthesizeTicks_listed listed synthesized
  unfold Env.history
  rw [unchecked, synthesized]
  exact ⟨_, rfl, rfl, rfl, rfl, rows⟩

theorem replays_unchecked {h : History} (same : h.pool = pool) (rows : h.rows ≠ []) (width : ℝ) :
    h.Replays env s width ↔ ∃ amt, env.rangeAmounts h.pool h.poolL h.entry width = .ok amt := by
  constructor
  · rintro ⟨amt, amounts, _⟩
    exact ⟨amt, amounts⟩
  · rintro ⟨amt, amounts⟩
    refine ⟨amt, amounts, ?_⟩
    -- with rows to replay and ticks that wrap, no variant fails
    intro _ rebalance _
    have spacing : 0 < (h.input s width amt rebalance).tickSpacing := by
      simpa [History.input, same] using spacing
    rw [unchecked]
    exact runDbBacktest_unchecked spacing rows

/-- Only the liquidity's text and the token amounts can fail. -/
theorem passes_unchecked (fromTs toTs : ℤ) : env.Passes s fromTs toTs pool ↔
    ∃ poolL, parseUnsigned (2 ^ 128) pool.poolLiquidity.toList = some poolL ∧
      (poolL ≠ 0 → ∀ candles, env.candles s fromTs toTs pool = some candles →
        ∀ width ∈ s.rangeWidths,
          -- without checks only the amounts of a width can fail
          ∃ amt, env.rangeAmounts pool poolL (entryClose candles) width = .ok amt) := by
  have replayed : ∀ poolL candles, env.candles s fromTs toTs pool = some candles →
      ((∃ h, env.history s pool poolL candles = .ok h ∧
          ∀ width ∈ s.rangeWidths, h.Replays env s width) ↔
        ∀ width ∈ s.rangeWidths,
          ∃ amt, env.rangeAmounts pool poolL (entryClose candles) width = .ok amt) := by
    intro poolL candles fetched
    obtain ⟨h, made, same, liquidity, entry, rows⟩ :=
      history_unchecked (s := s) unchecked spacing poolL (Env.candles_listed fetched)
    have each := replays_unchecked (s := s) unchecked spacing same rows
    rw [same, liquidity, entry] at each
    simp only [made, Except.ok.injEq, exists_eq_left', each]
  unfold Env.Passes
  constructor
  · rintro ⟨poolL, read, passed⟩
    refine ⟨poolL, read, ?_⟩
    intro some candles fetched
    exact (replayed poolL candles fetched).mp (passed some candles fetched)
  · rintro ⟨poolL, read, amounts⟩
    refine ⟨poolL, read, ?_⟩
    intro some candles fetched
    exact (replayed poolL candles fetched).mpr (amounts some candles fetched)

end Unchecked

/-- Amounts of token B, as the whirlpool crate rounds and bounds them, and the sqrt prices of
the least tick, of zero and of the greatest tick. -/
def edgeCore : WhirlpoolsCore where
  tickIndexToSqrtPrice tick :=
    if tick < 0 then 4295048016 else if tick = 0 then 2 ^ 64 else 79226673515401279992447579055
  tryGetAmountDeltaA _ _ _ _ := .ok 0
  tryGetAmountDeltaB sqrtLower sqrtUpper liquidity _ :=
    if liquidity * (sqrtUpper - sqrtLower) / 2 ^ 64 < 2 ^ 64 then
      .ok (liquidity * (sqrtUpper - sqrtLower) / 2 ^ 64)
    else .error "\"Amount exceeds max u64\""

/-- Three days at a price of one, for every pool. -/
noncomputable def calmEnv : Env where
  checks := false
  core := edgeCore
  naiveDate day :=
    if day = "2026-01-01" then some 20454 else if day = "2026-01-04" then some 20457 else none
  fetchRange _ _ fromTs _ := .ok [
    ⟨fromTs, 1, 1000⟩, ⟨fromTs + 86400, 1, 1000⟩, ⟨fromTs + 172800, 1, 1000⟩]

/-- Spaced by the greatest tick, so that every range below one starts at the least. -/
noncomputable def widePool (poolL : ℕ) : PoolCfg where
  label := "WIDE"
  address := "wide"
  feeBps := (4 : ℕ)
  decimalsA := 6
  decimalsB := 6
  tickSpacing := 443636
  poolLiquidity := String.ofList (Nat.toDigits 10 poolL)

noncomputable def halfWidth : Settings where
  fromDay := "2026-01-01"
  toDay := "2026-01-04"
  timeframe := "day"
  capitalUsd := (10000 : ℕ)
  rangeWidths := [1 / (2 : ℕ)]
  rebalance := []

theorem edge_ticks : priceToTick false (1 * (1 - 1 / 2) / uiFactor 6 6) 443636 = .ok (-443636) ∧
    priceToTick false (1 * (1 + 1 / 2) / uiFactor 6 6) 443636 = .ok 0 := by
  have below : (1 : ℝ) * (1 - 1 / 2) / uiFactor 6 6 = 1 / 2 := by
    rw [uiFactor_self]
    norm_num
  have above : (1 : ℝ) * (1 + 1 / 2) / uiFactor 6 6 = 3 / 2 := by
    rw [uiFactor_self]
    norm_num
  have half : -10000 ≤ rawTick (1 / 2) ∧ rawTick (1 / 2) < 0 := by
    have lower : ((2 ^ 1 : ℕ) : ℝ)⁻¹ ≤ 1 / 2 := by norm_num
    obtain ⟨least, _⟩ := floor_log_bounds lower (n := 0) (by norm_num)
    refine ⟨?_, rawTick_neg (by norm_num) (by norm_num)⟩
    rw [rawTick_of_pos (by norm_num)]
    omega
  have more : 0 ≤ rawTick (3 / 2) ∧ rawTick (3 / 2) ≤ 10000 := by
    have lower : ((2 ^ 0 : ℕ) : ℝ)⁻¹ ≤ 3 / 2 := by norm_num
    obtain ⟨least, most⟩ := floor_log_bounds lower (n := 1) (by norm_num)
    rw [rawTick_of_pos (by norm_num)]
    omega
  rw [below, above, priceToTick_of_ticks (by decide) (by decide) (by omega) (by omega),
    priceToTick_of_ticks (by decide) (by decide) (by omega) (by omega), alignedTick, alignedTick]
  constructor
  · congr 1
    omega
  · congr 1
    omega

theorem entry_sqrt : priceToSqrtQ64 (1 / uiFactor 6 6) = 2 ^ 64 := by
  have exact : priceToSqrtQ64 (sqrtQ64ToPrice (2 ^ 64)) = 2 ^ 64 :=
    priceToSqrtQ64_sqrtQ64ToPrice (by decide) (by decide)
  have price : sqrtQ64ToPrice (2 ^ 64) = 1 := by
    rw [sqrtQ64ToPrice_eq, twoPow64_eq]
    norm_num
  rw [uiFactor_self, div_one]
  rwa [price] at exact

/-- At the top of its range a pool is all in token B. -/
theorem rangeAmounts_above (env : Env) (pool : PoolCfg) {entry width : ℝ} {tickLower tickUpper : ℤ}
    (lower : priceToTick env.checks (entry * (1 - width) / uiFactor pool.decimalsA pool.decimalsB)
      pool.tickSpacing = .ok tickLower)
    (upper : priceToTick env.checks (entry * (1 + width) / uiFactor pool.decimalsA pool.decimalsB)
      pool.tickSpacing = .ok tickUpper)
    (above : env.core.rangeSide (priceToSqrtQ64 (entry / uiFactor pool.decimalsA pool.decimalsB))
      tickLower tickUpper = .above) (poolL : ℕ) :
    env.rangeAmounts pool poolL entry width =
      ((env.core.amountDeltaB (env.core.tickIndexToSqrtPrice tickLower)
        (env.core.tickIndexToSqrtPrice tickUpper) poolL).map (TokenAmounts.mk 0)).mapError .bail := by
  simp only [Env.rangeAmounts, lower, upper, Except.mapError, ok_bind, computeTokenAmounts, above]
  cases env.core.amountDeltaB (env.core.tickIndexToSqrtPrice tickLower)
      (env.core.tickIndexToSqrtPrice tickUpper) poolL with
  | ok amountB => rfl
  | error e => rfl

theorem wide_amounts (poolL : ℕ) :
    calmEnv.rangeAmounts (widePool poolL) poolL 1 (1 / 2) =
      ((edgeCore.amountDeltaB 4295048016 (2 ^ 64) poolL).map (TokenAmounts.mk 0)).mapError
        .bail := by
  have least : edgeCore.tickIndexToSqrtPrice (-443636) = 4295048016 := rfl
  have zero : edgeCore.tickIndexToSqrtPrice 0 = 2 ^ 64 := rfl
  have side : calmEnv.core.rangeSide (priceToSqrtQ64 (1 / uiFactor (widePool poolL).decimalsA
      (widePool poolL).decimalsB)) (-443636) 0 = .above := by
    have top : edgeCore.rangeSide (2 ^ 64) (-443636) 0 = .above := by decide
    rw [← entry_sqrt] at top
    exact top
  have amounts := rangeAmounts_above calmEnv (widePool poolL) edge_ticks.1 edge_ticks.2 side poolL
  rw [← least, ← zero]
  exact amounts

def calmCandles : List (OhlcvCandle ℝ) :=
  [⟨1767225600, 1, 1000⟩, ⟨1767312000, 1, 1000⟩, ⟨1767398400, 1, 1000⟩]

theorem calm_dates : calmEnv.Dates halfWidth 1767225600 1767484800 := ⟨rfl, rfl, by decide⟩

theorem calm_fetched (pool : PoolCfg) :
    calmEnv.candles halfWidth 1767225600 1767484800 pool = some calmCandles := by
  simp [Env.candles, calmEnv, calmCandles]

theorem wide_history (poolL : ℕ) :
    ∃ h, calmEnv.history halfWidth (widePool poolL) poolL calmCandles = .ok h ∧
      h.pool = widePool poolL ∧ h.poolL = poolL ∧ h.entry = 1 ∧ h.rows ≠ [] :=
  history_unchecked rfl (by simp [widePool]) poolL (by simp [calmCandles])

theorem wide_read {poolL : ℕ} (small : poolL < 2 ^ 128) :
    parseUnsigned (2 ^ 128) (widePool poolL).poolLiquidity.toList = some poolL := by
  simp only [widePool, String.toList_ofList, parseUnsigned_toDigits small]

/-- A pool whose amount fits gives one row. -/
theorem wide_row {poolL : ℕ} (small : poolL < 2 ^ 128) (some : poolL ≠ 0) {amountB : ℕ}
    (positive : 0 < amountB) (fits : edgeCore.amountDeltaB 4295048016 (2 ^ 64) poolL = .ok amountB) :
    ∃ row, calmEnv.pushPool halfWidth 1767225600 1767484800 0 [] (widePool poolL) = .ok [row] := by
  obtain ⟨h, made, pool, liquidity, entry, rows⟩ := wide_history poolL
  have amounts : calmEnv.rangeAmounts h.pool h.poolL h.entry (1 / 2) = .ok ⟨0, amountB⟩ := by
    rw [pool, liquidity, entry, wide_amounts, fits]
    rfl
  have worth : 0 < h.valueAtPoolL ⟨0, amountB⟩ := by
    have scaled : 0 < (amountB : ℝ) / tokenScale h.pool.decimalsB :=
      div_pos (Nat.cast_pos.mpr positive) (tokenScale_pos _)
    simpa [History.valueAtPoolL] using scaled
  have spacing : 0 < (h.input halfWidth (1 / 2) ⟨0, amountB⟩ false).tickSpacing := by
    simp [History.input, pool, widePool]
  obtain ⟨res, replayed⟩ := runDbBacktest_unchecked spacing rows
  have cell : h.pushCell calmEnv halfWidth (1 / 2) ⟨0, amountB⟩ 0 [] false =
      .ok [h.result halfWidth (1 / 2) ⟨0, amountB⟩ false res] := by
    simp only [History.pushCell, calmEnv, replayed, List.nil_append]
  refine ⟨h.result halfWidth (1 / 2) ⟨0, amountB⟩ false res, ?_⟩
  have variants : halfWidth.rebalanceVariants = [false] := rfl
  have widths : halfWidth.rangeWidths = [1 / 2] := by simp [halfWidth]
  rw [Env.pushPool_reached (wide_read small) some (calm_fetched _) made, widths, loop_singleton,
    History.pushWidth, amounts]
  simp only [ok_bind, if_neg (not_le.mpr worth), variants, loop_singleton, cell]

theorem wide_fails {poolL : ℕ} (small : poolL < 2 ^ 128) (some : poolL ≠ 0) {e : String}
    (large : edgeCore.amountDeltaB 4295048016 (2 ^ 64) poolL = .error e) (i : ℕ)
    (out : List RunResult) :
    calmEnv.pushPool halfWidth 1767225600 1767484800 i out (widePool poolL) = .error (.bail e) := by
  obtain ⟨h, made, pool, liquidity, entry, _⟩ := wide_history poolL
  have amounts : calmEnv.rangeAmounts h.pool h.poolL h.entry (1 / 2) = .error (.bail e) := by
    rw [pool, liquidity, entry, wide_amounts, large]
    rfl
  have widths : halfWidth.rangeWidths = [1 / 2] := by simp [halfWidth]
  rw [Env.pushPool_reached (wide_read small) some (calm_fetched _) made, widths, loop_singleton,
    History.pushWidth, amounts]
  rfl

theorem wide_passes {poolL : ℕ} (small : poolL < 2 ^ 128) {amountB : ℕ}
    (fits : edgeCore.amountDeltaB 4295048016 (2 ^ 64) poolL = .ok amountB) :
    calmEnv.Passes halfWidth 1767225600 1767484800 (widePool poolL) := by
  refine (passes_unchecked rfl (by simp [widePool]) _ _).mpr ⟨poolL, wide_read small, ?_⟩
  intro some candles fetched width member
  rw [calm_fetched] at fetched
  obtain rfl := Option.some.inj fetched
  have half : width = 1 / 2 := by simpa [halfWidth] using member
  refine ⟨⟨0, amountB⟩, ?_⟩
  rw [half, show entryClose calmCandles = 1 from rfl, wide_amounts, fits]
  rfl

end TickLiq.Research
