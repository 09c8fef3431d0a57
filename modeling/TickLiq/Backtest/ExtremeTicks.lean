import TickLiq.Backtest.RoundTrip
import TickLiq.Backtest.SwitchedOff
import TickLiq.Backtest.TickSizes
import TickLiq.Data.Geckoterminal

/-!
# Ticks at the ends of `i32`

A close of zero is a finite number, and so is one that vanishes or overflows when it is divided
by the decimals. A quotient of zero has no tick on most spacings. Where it has one it is
`i32::MIN`, which the edge test then subtracts, like the highest tick of an infinite quotient.
Nothing else makes the ticks of a backfill or its replay overflow. Prices, fees and P&L are the
`f64` values of the program.
-/
namespace TickLiq

open Machine (Binary64 InRange bind_ok_iff checked_true_iff)

/-- The edge tests that are reached do not subtract ticks that are far apart. -/
def EdgesClear (spacing tickCurrent tickLower tickUpper : ℤ) (netPnlUsd : Binary64)
    (config : RebalanceConfig Binary64) : Prop :=
  ¬(config.rebalanceOutOfRange = true ∧ (tickCurrent < tickLower ∨ tickUpper < tickCurrent)) →
    ¬netPnlUsd < config.minNetPnlUsd →
    ¬FarApart spacing tickCurrent tickLower ∧
      (config.nearEdgeTicks < tickCurrent - tickLower → ¬FarApart spacing tickUpper tickCurrent)

theorem edgesClear_iff {s tickCurrent tickLower tickUpper : ℤ} (spacing : 0 < s)
    (fits : InRange 32 s) (current : RangeTick s tickCurrent) (lower : RangeTick s tickLower)
    (upper : RangeTick s tickUpper) {netPnlUsd : Binary64} {config : RebalanceConfig Binary64} :
    (∃ signal, shouldRebalance true tickCurrent tickLower tickUpper netPnlUsd config =
      .ok signal) ↔ EdgesClear s tickCurrent tickLower tickUpper netPnlUsd config := by
  rw [shouldRebalance_returns_iff, current.sub_inRange_iff spacing fits lower,
    upper.sub_inRange_iff spacing fits current, EdgesClear]
  by_cases outside :
      config.rebalanceOutOfRange = true ∧ (tickCurrent < tickLower ∨ tickUpper < tickCurrent)
  · simp [outside]
  · by_cases below : netPnlUsd < config.minNetPnlUsd
    · simp [below]
    · simp only [outside, below, false_or, not_false_eq_true, forall_const]
      refine and_congr_right fun _ => ?_
      rw [← not_le]
      constructor
      · intro either far
        exact either.resolve_left far
      · intro far
        exact Classical.or_iff_not_imp_left.mpr far

variable [Libm]

namespace DbBacktestInput

/-- What a bound is divided to on its way to a tick. -/
def quotient (input : DbBacktestInput Binary64) (price : Binary64) : Binary64 :=
  price / input.uiFactor

/-- The spacing and the decimals are those of a pool. -/
structure Configured (input : DbBacktestInput Binary64) : Prop where
  spacing : 0 < input.tickSpacing
  fits : InRange 32 input.tickSpacing
  decimalsA : input.decimalsA ≤ 255
  decimalsB : input.decimalsB ≤ 255

/-- The range that the replay opens with has ticks. -/
structure StartClear (input : DbBacktestInput Binary64) : Prop where
  lower : input.quotient input.priceLower = 0 → input.tickSpacing ∣ 2 ^ 31
  upper : input.quotient input.priceUpper = 0 → input.tickSpacing ∣ 2 ^ 31

end DbBacktestInput

/-- The P&L that the signal sees. -/
def Replay.signalPnl (replay : Replay Binary64) (input : DbBacktestInput Binary64) (i : ℕ)
    (t : PoolTickRow) : Binary64 :=
  (replay.observe input i t).cumulativeFees + (replay.observe input i t).realizedIlUsd +
    (replay.observe input i t).lastUnrealizedIlUsd

/-- No subtraction of the signal meets ticks that are far apart, and a range that is re-centred
does not end at a quotient of zero on a grid without `i32::MIN`. -/
structure RowClear (input : DbBacktestInput Binary64) (replay : Replay Binary64) (i : ℕ)
    (t : PoolTickRow) : Prop where
  edges : EdgesClear input.tickSpacing t.tickCurrent replay.tickLower replay.tickUpper
    (replay.signalPnl input i t) input.rebalanceCfg
  recentered : Fires t.tickCurrent replay.tickLower replay.tickUpper
    (replay.signalPnl input i t) input.rebalanceCfg →
    input.quotient (input.uiPrice t * input.rangeFactorUpper) = 0 → input.tickSpacing ∣ 2 ^ 31

/-- The opening range has ticks, and every row that the replay reaches is clear. -/
structure ClearReplay (input : DbBacktestInput Binary64) (rows : List PoolTickRow) : Prop where
  start : rows ≠ [] → input.StartClear
  rows : ∀ first rest, rows = first :: rest → ∀ opened, Replay.start input true first = .ok opened →
    ∀ seen t later, rows = seen ++ t :: later → ∀ replay,
      Replay.loop input true 0 opened seen = .ok replay → RowClear input replay seen.length t

/-- The bounds of the range in force. -/
structure RangeTicks (input : DbBacktestInput Binary64) (replay : Replay Binary64) : Prop where
  lower : RangeTick input.tickSpacing replay.tickLower
  upper : RangeTick input.tickSpacing replay.tickUpper

namespace Replay

variable [Libm.Lawful] {input : DbBacktestInput Binary64} (configured : input.Configured)
include configured

theorem tickBound_returns_iff {price : Binary64} : (∃ t, input.tickBound true price = .ok t) ↔
    (input.quotient price = 0 → input.tickSpacing ∣ 2 ^ 31) :=
  priceToTick_returns_iff configured.spacing configured.fits

theorem tickBound_rangeTick {price : Binary64} {t : ℤ}
    (returned : input.tickBound true price = .ok t) : RangeTick input.tickSpacing t :=
  priceToTick_rangeTick configured.spacing configured.fits
    ((tickBound_returns_iff configured).mp ⟨t, returned⟩) returned

theorem start_returns_iff (first : PoolTickRow) :
    (∃ opened, Replay.start input true first = .ok opened) ↔ input.StartClear := by
  constructor
  · rintro ⟨opened, start⟩
    have opening := start_ok start
    exact ⟨(tickBound_returns_iff configured).mp ⟨_, opening.lower⟩,
      (tickBound_returns_iff configured).mp ⟨_, opening.upper⟩⟩
  · intro clear
    obtain ⟨tickLower, lower⟩ := (tickBound_returns_iff configured).mpr clear.lower
    obtain ⟨tickUpper, upper⟩ := (tickBound_returns_iff configured).mpr clear.upper
    simp only [Replay.start, lower, upper]
    exact ⟨_, rfl⟩

theorem start_rangeTicks {first : PoolTickRow} {opened : Replay Binary64}
    (start : Replay.start input true first = .ok opened) : RangeTicks input opened := by
  have opening := start_ok start
  exact ⟨tickBound_rangeTick configured opening.lower,
    tickBound_rangeTick configured opening.upper⟩

/-- The floor under a lower bound keeps it away from zero. -/
theorem floored_quotient (price : Binary64) : input.quotient (max price 1e-9) ≠ 0 := by
  obtain ⟨v, factor, positive, most⟩ :=
    Rounded.reads_uiFactor configured.decimalsA configured.decimalsB
  have units := Machine.unitsPerOne_pos
  have power : Machine.Representable (((1 : ℤ) : ℚ) / 2 ^ 30) :=
    Machine.representable_shift (by decide) (by decide)
  have least : ((1 : ℤ) : ℚ) / 2 ^ 30 ≤ Machine.nearest 1e-9 :=
    Machine.le_nearest power (by norm_num)
  have floor : Binary64.Reads (1e-9 : Binary64) (Machine.nearest 1e-9) :=
    Binary64.reads_round_small (by norm_num [abs_of_pos])
  rcases floor.max_cases (x := price) with infinite | ⟨a, reads, above⟩
  · rw [DbBacktestInput.quotient, infinite]
    show Binary64.inf false / Rounded.uiFactor _ _ ≠ 0
    rw [factor.inf_div]
    exact Binary64.reads_zero.inf_ne _
  · show max price 1e-9 / Rounded.uiFactor _ _ ≠ 0
    rw [reads.div factor positive.ne']
    apply Binary64.round_ne_zero
    have smallest : Machine.Representable (1 / Machine.unitsPerOne) :=
      ⟨1, 0, by decide, by norm_num⟩
    refine lt_of_lt_of_le (div_pos one_pos units) (Machine.le_nearest smallest ?_)
    -- the factor is far below the reciprocal of the smallest float
    have room : (2 : ℚ) ^ 31 * (2 ^ 850 : ℕ) ≤ Machine.unitsPerOne := by
      rw [Machine.unitsPerOne, Nat.cast_pow, Nat.cast_pow, Nat.cast_ofNat, ← pow_add]
      exact pow_le_pow_right₀ one_le_two (by decide)
    rw [div_le_div_iff₀ units positive, one_mul]
    have size : ((1 : ℤ) : ℚ) / 2 ^ 30 ≤ a := least.trans above
    rw [Int.cast_one] at size
    have product := mul_le_mul size room (by positivity) (le_trans (by positivity) size)
    refine (most.trans_eq ?_).trans product
    rw [← mul_assoc]
    exact congrArg (· * ((2 ^ 850 : ℕ) : ℚ)) (by norm_num)

theorem recenter_returns_iff {replay : Replay Binary64} :
    (∃ next, replay.recenter input true = .ok next) ↔
      (input.quotient (replay.lastPrice * input.rangeFactorUpper) = 0 →
        input.tickSpacing ∣ 2 ^ 31) := by
  obtain ⟨lower, found⟩ := (tickBound_returns_iff configured).mpr fun zero =>
    absurd zero (floored_quotient configured (replay.lastPrice * input.rangeFactorLower))
  rw [← tickBound_returns_iff configured]
  simp only [recenter, found, Machine.ok_bind, bind_ok_iff]
  constructor
  · rintro ⟨next, upper, found', _⟩
    exact ⟨upper, found'⟩
  · rintro ⟨upper, found'⟩
    exact ⟨_, upper, found', rfl⟩

variable {replay next : Replay Binary64} {i : ℕ} {t : PoolTickRow}

theorem step_rangeTicks (ticks : RangeTicks input replay)
    (stepped : replay.step input true i t = .ok next) : RangeTicks input next := by
  rcases step_cases stepped with held | recentered
  · rw [held]
    exact ⟨(observe_bounds replay input i t).1 ▸ ticks.lower,
      (observe_bounds replay input i t).2 ▸ ticks.upper⟩
  · exact ⟨tickBound_rangeTick configured recentered.lower,
      tickBound_rangeTick configured recentered.upper⟩

/-- A row overflows only through a tick at an end of `i32`. -/
theorem step_returns_iff (row : RangeTick input.tickSpacing t.tickCurrent)
    (ticks : RangeTicks input replay) :
    (∃ next, replay.step input true i t = .ok next) ↔ RowClear input replay i t := by
  obtain ⟨sameLower, sameUpper⟩ := observe_bounds replay input i t
  have edges : (∃ signal, shouldRebalance true t.tickCurrent replay.tickLower replay.tickUpper
      (replay.signalPnl input i t) input.rebalanceCfg = .ok signal) ↔ _ :=
    edgesClear_iff configured.spacing configured.fits row ticks.lower ticks.upper
  have recenters : (∃ next, (replay.observe input i t).recenter input true = .ok next) ↔ _ :=
    recenter_returns_iff configured
  have decided : ∀ signal, shouldRebalance true t.tickCurrent (replay.observe input i t).tickLower
      (replay.observe input i t).tickUpper (replay.signalPnl input i t) input.rebalanceCfg =
        .ok signal ↔ shouldRebalance true t.tickCurrent replay.tickLower replay.tickUpper
      (replay.signalPnl input i t) input.rebalanceCfg = .ok signal := by
    intro signal
    rw [sameLower, sameUpper]
  constructor
  · rintro ⟨next, stepped⟩
    obtain ⟨signal, returned, rest⟩ := (bind_ok_iff ..).mp stepped
    have returned := (decided signal).mp returned
    -- the signal has returned, and so has the recentring if it asked for one
    refine ⟨edges.mp ⟨signal, returned⟩, ?_⟩
    intro fires
    cases signal with
    | hold reason => exact absurd fires (shouldRebalance_holds returned)
    | rebalance reason => exact recenters.mp ⟨next, rest⟩
  · intro clear
    obtain ⟨signal, returned⟩ := edges.mpr clear.edges
    cases signal with
    | hold reason =>
      exact ⟨_, (bind_ok_iff ..).mpr ⟨_, (decided _).mpr returned, rfl⟩⟩
    | rebalance reason =>
      obtain ⟨next, recentered⟩ := recenters.mpr (clear.recentered (shouldRebalance_fires returned))
      exact ⟨next, (bind_ok_iff ..).mpr ⟨_, (decided _).mpr returned, recentered⟩⟩

end Replay

section Replays

variable [Libm.Lawful] {input : DbBacktestInput Binary64}

/-- The replay of a backfill panics on the first row that is not clear, and on no other. -/
theorem replay_panics_iff (configured : input.Configured) {rows : List PoolTickRow}
    (backfill : ∀ t ∈ rows, RangeTick input.tickSpacing t.tickCurrent) :
    (∀ panic, runDbBacktest true input rows ≠ .error (.panic panic)) ↔ ClearReplay input rows := by
  cases rows with
  | nil =>
    constructor
    · intro _
      refine ⟨fun listed => absurd rfl listed, ?_⟩
      intro first rest split
      cases split
    · intro _ panic returned
      cases returned
  | cons first rest =>
    by_cases opens : input.StartClear
    · obtain ⟨opened, start⟩ := (Replay.start_returns_iff configured first).mpr opens
      have loops : (∀ panic, runDbBacktest true input (first :: rest) ≠ .error (.panic panic)) ↔
          ∃ last, Replay.loop input true 0 opened (first :: rest) = .ok last := by
        simp only [runDbBacktest, start, Machine.ok_bind]
        cases Replay.loop input true 0 opened (first :: rest) with
        | ok last => simp
        | error panic => simp
      rw [loops]
      simp only [Replay.loop_eq, Machine.loop_returns_iff]
      -- the bounds of the range stay among the ticks in every state that is reached
      have reached : ∀ seen t later, first :: rest = seen ++ t :: later → ∀ replay,
          Machine.loop (Replay.pass input true) 0 opened seen = .ok replay →
          ((∃ next, Replay.pass input true (0 + seen.length) replay t = .ok next) ↔
            RowClear input replay seen.length t) := by
        intro seen t later split replay through
        rw [← Replay.loop_eq] at through
        have bounds := Replay.loop_invariant (Replay.start_rangeTicks configured start)
          (fun i before u member next ticks stepped =>
            Replay.step_rangeTicks configured ticks stepped) through
        rw [Nat.zero_add]
        exact Replay.step_returns_iff configured (backfill t (by simp [split])) bounds
      constructor
      · intro returns
        refine ⟨fun _ => opens, ?_⟩
        intro first' rest' here opened' start' seen t later split replay through
        cases here
        cases start.symm.trans start'
        rw [Replay.loop_eq] at through
        exact (reached seen t later split replay through).mp
          (returns seen t later split replay through)
      · intro clear seen t later split replay through
        refine (reached seen t later split replay through).mpr ?_
        exact clear.rows first rest rfl opened start seen t later split replay
          (by rw [Replay.loop_eq]; exact through)
    · -- the replay does not come to its first row
      refine iff_of_false ?_ fun clear => opens (clear.start (List.cons_ne_nil _ _))
      intro returns
      apply opens
      apply (Replay.start_returns_iff configured first).mp
      cases start : Replay.start input true first with
      | ok opened => exact ⟨opened, rfl⟩
      | error panic =>
        have fails : runDbBacktest true input (first :: rest) = .error (.panic panic) := by
          simp only [runDbBacktest, start]
          rfl
        exact absurd fails (returns panic)

end Replays

/-! ### The backfill -/

theorem candleRows_priced {checks : Bool} {p : PoolSynthParams Binary64}
    {candles : List (OhlcvCandle Binary64)} {feeGrowthB : ℕ} {rows : List PoolTick}
    (returned : p.candleRows checks feeGrowthB candles = .ok rows) : ∀ tick ∈ rows, ∃ c ∈ candles,
      priceToTick checks (p.rawPrice c) p.tickSpacing = .ok tick.tickCurrent := by
  induction candles generalizing feeGrowthB rows with
  | nil =>
    intro tick member
    cases returned
    cases member
  | cons c candles ih =>
    intro tick member
    obtain ⟨row, rest, first, others, split⟩ := PoolSynthParams.candleRows_ok returned
    obtain ⟨_, found, made⟩ := PoolSynthParams.candleRow_ok first
    subst split
    rcases List.mem_cons.mp member with here | there
    · rw [here, made]
      exact ⟨c, List.mem_cons_self .., found⟩
    · obtain ⟨d, listed, priced⟩ := ih others tick there
      exact ⟨d, List.mem_cons_of_mem c listed, priced⟩

/-- The rows of a backfill have the ticks of its candles. -/
theorem synthesized_priced {checks : Bool} {candles : List (OhlcvCandle Binary64)}
    {p : PoolSynthParams Binary64} {ticks : List PoolTick}
    (synthesized : synthesizeTicks checks candles p = .ok ticks) : ∀ tick ∈ ticks, ∃ c ∈ candles,
      priceToTick checks (p.rawPrice c) p.tickSpacing = .ok tick.tickCurrent := by
  cases candles with
  | nil =>
    cases synthesized
    simp
  | cons first rest =>
    obtain ⟨baseline, rows, opening, others, split⟩ := synthesizeTicks_ok synthesized
    subst split
    intro tick member
    rcases List.mem_cons.mp member with here | there
    · -- the baseline row has the price of the first candle
      obtain ⟨_, _, _, found, made⟩ := PoolSynthParams.baselineRow_ok opening
      rw [here, made]
      exact ⟨first, List.mem_cons_self .., found⟩
    · exact candleRows_priced others tick there

/-- Neither the ticks of the candles nor the replay of their rows overflow. The rows are those
of a build without checks, as the slot of the first row may leave `i64`. -/
structure FaultFree (candles : List (OhlcvCandle Binary64)) (p : PoolSynthParams Binary64)
    (input : DbBacktestInput Binary64) : Prop where
  synthesis : ∀ c ∈ candles, ∃ tick, priceToTick true (p.rawPrice c) p.tickSpacing = .ok tick
  replay : ∀ ticks, synthesizeTicks false candles p = .ok ticks →
    ∀ panic, runDbBacktest true input (toRows ticks) ≠ .error (.panic panic)

/-- The ticks of a backfill and its replay are free of overflows exactly when quotients of zero
meet a spacing with `i32::MIN` on its grid, and every row of the replay is clear. -/
theorem faultFree_iff [Libm.Lawful] {p : PoolSynthParams Binary64}
    {input : DbBacktestInput Binary64} (configured : input.Configured)
    (same : p.tickSpacing = input.tickSpacing) (candles : List (OhlcvCandle Binary64)) :
    FaultFree candles p input ↔
      (p.tickSpacing ∣ 2 ^ 31 ∨ ∀ c ∈ candles, p.rawPrice c ≠ 0) ∧
        ∀ ticks, synthesizeTicks false candles p = .ok ticks → ClearReplay input (toRows ticks) := by
  have synthesis : (∀ c ∈ candles, ∃ tick, priceToTick true (p.rawPrice c) p.tickSpacing =
      .ok tick) ↔ (p.tickSpacing ∣ 2 ^ 31 ∨ ∀ c ∈ candles, p.rawPrice c ≠ 0) := by
    rw [same]
    simp only [priceToTick_returns_iff configured.spacing configured.fits]
    by_cases divides : input.tickSpacing ∣ 2 ^ 31
    · simp only [iff_true_intro divides, implies_true, true_or]
    · simp only [iff_false_intro divides, imp_false, false_or, ne_eq]
  -- the ticks that were found are ones the pass over the rows may meet
  have replays : (p.tickSpacing ∣ 2 ^ 31 ∨ ∀ c ∈ candles, p.rawPrice c ≠ 0) → ∀ ticks,
      synthesizeTicks false candles p = .ok ticks →
      ((∀ panic, runDbBacktest true input (toRows ticks) ≠ .error (.panic panic)) ↔
        ClearReplay input (toRows ticks)) := by
    intro divides ticks synthesized
    apply replay_panics_iff configured
    intro t member
    obtain ⟨tick, listed, made⟩ := List.mem_map.mp member
    obtain ⟨c, candle, found⟩ := synthesized_priced synthesized tick listed
    rw [← made]
    rw [same] at divides found
    refine priceToTick_rangeTick configured.spacing configured.fits ?_ found
    intro zero
    exact divides.resolve_right fun nonzero => nonzero c candle zero
  constructor
  · intro free
    have divides := synthesis.mp free.synthesis
    exact ⟨divides, fun ticks synthesized =>
      (replays divides ticks synthesized).mp (free.replay ticks synthesized)⟩
  · rintro ⟨divides, clear⟩
    exact ⟨synthesis.mpr divides, fun ticks synthesized =>
      (replays divides ticks synthesized).mpr (clear ticks synthesized)⟩

/-! ### A page of zeros -/

section Zeros

variable [Libm.Lawful] {input : DbBacktestInput Binary64} (configured : input.Configured)
include configured

/-- Away from zero no quotient has the tick `i32::MIN`. -/
theorem tickBound_above {price : Binary64} (nonzero : input.quotient price ≠ 0) {checks : Bool}
    {t : ℤ} (returned : input.tickBound checks price = .ok t) : -2 ^ 31 < t := by
  have spacing := configured.spacing
  have highest := highestTick_bounds spacing configured.fits
  have rounded : t = Rounded.rawTick (input.quotient price) / input.tickSpacing *
      input.tickSpacing := by
    have range := aligned_rangeTick (s := input.tickSpacing) fun zero => absurd zero nonzero
    have product := priceToTick_product (x := input.quotient price) spacing checks
    rw [Machine.checked_inRange checks (range.inRange spacing configured.fits)] at product
    exact Except.ok.inj (returned.symm.trans product)
  rcases Rounded.rawTick_cases (input.quotient price) with ⟨zero, _⟩ | ⟨_, top⟩ | ⟨_, _, size⟩
  · exact absurd zero nonzero
  · rw [rounded, top]
    change -2 ^ 31 < highestTick input.tickSpacing
    omega
  · have grid : GridTick input.tickSpacing t := ⟨_, size.1, size.2, rounded⟩
    have cases := grid.cases spacing
    have fits := configured.fits.2
    omega

/-- A range that opens above zero never has the lower tick `i32::MIN`. -/
theorem lower_above (opens : input.quotient input.priceLower ≠ 0) {first : PoolTickRow}
    {ticks : List PoolTickRow} {opened replay : Replay Binary64}
    (start : Replay.start input true first = .ok opened)
    (through : Replay.loop input true 0 opened ticks = .ok replay) : -2 ^ 31 < replay.tickLower := by
  refine Replay.loop_invariant (P := fun replay => -2 ^ 31 < replay.tickLower)
    (tickBound_above configured opens (Replay.start_ok start).lower) ?_ through
  intro i before t _ next above stepped
  rcases Replay.step_cases stepped with held | recentered
  · rw [held, (Replay.observe_bounds before input i t).1]
    exact above
  · have lower := recentered.lower
    rw [recentered.moved] at lower
    exact tickBound_above configured (Replay.floored_quotient configured _) lower

/-- On a grid with `i32::MIN` the range test acts on zero closes before the edge test can. -/
theorem zeroCloses_clear (divides : input.tickSpacing ∣ 2 ^ 31)
    (opens : input.quotient input.priceLower ≠ 0)
    (tested : input.rebalanceCfg.rebalanceOutOfRange = true) {rows : List PoolTickRow}
    (lowest : ∀ t ∈ rows, t.tickCurrent = -2 ^ 31) : ClearReplay input rows := by
  refine ⟨fun _ => ⟨fun _ => divides, fun _ => divides⟩, ?_⟩
  intro first rest _ opened start seen t later split replay through
  refine ⟨?_, fun _ _ => divides⟩
  intro inside
  have above := lower_above configured opens start through
  have here := lowest t (by simp [split])
  exact absurd ⟨tested, Or.inl (by omega)⟩ inside

end Zeros

/-- What `synthesize_ticks` reads of a candle. -/
def OhlcvCandle.ofFetched (c : Geckoterminal.OhlcvCandle) : OhlcvCandle Binary64 :=
  { timestamp := c.timestamp, close := c.close, volumeUsd := c.volumeUsd }

/-- The candle of a pool that did not trade, with zeros for its prices. -/
def emptyCandle : Geckoterminal.OhlcvCandle := ⟨0, 0, 0, 0, 0, 0⟩

def gridPool (tickSpacing : ℤ) : PoolSynthParams Binary64 := ⟨"pool", 1, 2 ^ 64, 0, 0, tickSpacing⟩

def gridInput (tickSpacing : ℤ) : DbBacktestInput Binary64 :=
  ⟨1, 1, 0.5, 1.5, 1, tickSpacing, 2 ^ 64, 0, 0, ⟨true, 0, 0⟩, 0.5, 1.5⟩

theorem zero_div_uiFactor [Libm.Lawful] {decimalsA decimalsB : ℕ} (a : decimalsA ≤ 255)
    (b : decimalsB ≤ 255) : (0 : Binary64) / Rounded.uiFactor decimalsA decimalsB = 0 := by
  obtain ⟨v, factor, positive, _⟩ := Rounded.reads_uiFactor a b
  rw [Binary64.reads_zero.div factor positive.ne', zero_div]
  rfl

omit [Libm] in
/-- On a spacing of 64 a zero close has a tick, and the range test acts on it. -/
theorem faultFree_iff_sample :
    @FaultFree Libm.ideal [OhlcvCandle.ofFetched emptyCandle] (gridPool 64) (gridInput 64) := by
  let _ : Libm := Libm.ideal
  have configured : (gridInput 64).Configured :=
    ⟨by decide, by decide, Nat.zero_le _, Nat.zero_le _⟩
  refine (faultFree_iff configured rfl _).mpr ⟨Or.inl (by decide), ?_⟩
  intro ticks synthesized
  refine zeroCloses_clear configured (by decide) ?_ rfl ?_
  · -- the range opens at one half
    have half : Binary64.Reads (0.5 : Binary64) (((1 : ℤ) : ℚ) / 2 ^ 1) := by
      have value : (0.5 : Binary64) = Binary64.round (((1 : ℤ) : ℚ) / 2 ^ 1) :=
        congrArg Binary64.round (by norm_num)
      have reads := Binary64.reads_round_small (q := ((1 : ℤ) : ℚ) / 2 ^ 1) (by norm_num [abs_of_pos])
      rw [Machine.nearest_of_representable
        (Machine.representable_shift (by decide) (by decide))] at reads
      rwa [value]
    have quotient : (gridInput 64).quotient 0.5 = 0.5 / 1 :=
      congrArg (0.5 / ·) (Libm.Lawful.powi_zero (10 : ℕ))
    show (gridInput 64).quotient 0.5 ≠ 0
    rw [quotient, half.div Binary64.reads_one one_ne_zero, div_one]
    apply Binary64.round_ne_zero
    rw [Machine.nearest_of_representable half.representable]
    norm_num
  · intro t member
    obtain ⟨tick, listed, made⟩ := List.mem_map.mp member
    obtain ⟨c, candle, found⟩ := synthesized_priced synthesized tick listed
    have raw : (gridPool 64).rawPrice c = 0 := by
      rw [List.mem_singleton.mp candle]
      exact zero_div_uiFactor (Nat.zero_le _) (Nat.zero_le _)
    rw [raw, priceToTick_product (by decide), Rounded.rawTick_zero] at found
    rw [← made]
    exact (Except.ok.inj found).symm

omit [Libm] in
/-- A page with a candle of zeros is accepted, and on a spacing of 10 its tick overflows. -/
theorem zero_close_overflows : ∃ body fetched, Geckoterminal.parseOhlcvList body = .ok fetched ∧
    ∃ p input, p.tickSpacing = 10 ∧ input.tickSpacing = p.tickSpacing ∧
      0 < input.entryPrice ∧ 0 < input.priceLower ∧ input.priceLower < input.priceUpper ∧
      ¬@FaultFree Libm.ideal (fetched.map OhlcvCandle.ofFetched) p input := by
  let _ : Libm := Libm.ideal
  have parsed : Geckoterminal.parseOhlcvList (Geckoterminal.pageOf [Geckoterminal.encodeRow
      (List.replicate 6 (.integer 0))]) = .ok [emptyCandle] := by
    refine Geckoterminal.parseOhlcvList_encodes Int.one_pos (List.pairwise_singleton _ emptyCandle)
      ?_ (List.Perm.refl _) (.cons ⟨rfl⟩ .nil) rfl
    simp [emptyCandle]
  refine ⟨_, _, parsed, gridPool 10, gridInput 10, rfl, rfl, ?_, ?_, ?_, ?_⟩
  · decide +kernel
  · decide +kernel
  · decide +kernel
  · intro free
    obtain ⟨tick, found⟩ := free.synthesis (OhlcvCandle.ofFetched emptyCandle) (by simp)
    have raw : (gridPool 10).rawPrice (OhlcvCandle.ofFetched emptyCandle) = 0 :=
      zero_div_uiFactor (Nat.zero_le _) (Nat.zero_le _)
    have divides := (priceToTick_returns_iff (by decide) (by decide)).mp ⟨tick, found⟩ raw
    exact absurd divides (by decide)

/-! ### The build with overflow checks -/

theorem priceToTick_checked {x : Binary64} {s t : ℤ} (returned : priceToTick true x s = .ok t) :
    priceToTick false x s = .ok t := by
  obtain ⟨steps, divided, product⟩ := (bind_ok_iff ..).mp returned
  obtain ⟨inside, same⟩ := checked_true_iff.mp
    (show Machine.checked true 32 (steps * s) = .ok t from product)
  refine (bind_ok_iff ..).mpr ⟨steps, divided, ?_⟩
  rw [← same]
  exact Machine.checked_inRange false inside

section Checked

variable {p : PoolSynthParams Binary64}

theorem candleRows_checked {candles : List (OhlcvCandle Binary64)} (feeGrowthB : ℕ)
    (each : ∀ c ∈ candles, ∃ tick, priceToTick true (p.rawPrice c) p.tickSpacing = .ok tick) :
    ∃ rows, p.candleRows true feeGrowthB candles = .ok rows ∧
      p.candleRows false feeGrowthB candles = .ok rows := by
  induction candles generalizing feeGrowthB with
  | nil => exact ⟨[], rfl, rfl⟩
  | cons c candles ih =>
    obtain ⟨tick, found⟩ := each c (List.mem_cons_self ..)
    obtain ⟨rows, checked, unchecked⟩ := ih (p.growAfter feeGrowthB c)
      fun d member => each d (List.mem_cons_of_mem c member)
    simp only [PoolSynthParams.candleRows, PoolSynthParams.candleRow, found,
      priceToTick_checked found, Machine.ok_bind, pure, Except.pure, checked, unchecked]
    exact ⟨_, rfl, rfl⟩

theorem candleRows_each {feeGrowthB : ℕ} {candles : List (OhlcvCandle Binary64)} {rows : List PoolTick}
    (returned : p.candleRows true feeGrowthB candles = .ok rows) :
    ∀ c ∈ candles, ∃ tick, priceToTick true (p.rawPrice c) p.tickSpacing = .ok tick := by
  induction candles generalizing feeGrowthB rows with
  | nil => simp
  | cons c candles ih =>
    obtain ⟨row, rest, first, others, _⟩ := PoolSynthParams.candleRows_ok returned
    obtain ⟨tick, found, _⟩ := PoolSynthParams.candleRow_ok first
    intro d member
    rcases List.mem_cons.mp member with here | there
    · rw [here]
      exact ⟨tick, found⟩
    · exact ih others d there

/-- Unless the slot before the first candle leaves `i64`, a fault is a panic of the build with
overflow checks. -/
theorem faultFree_iff_checked {input : DbBacktestInput Binary64} {first : OhlcvCandle Binary64}
    {rest : List (OhlcvCandle Binary64)} (slot : InRange 64 (first.timestamp - 1)) :
    FaultFree (first :: rest) p input ↔ ∃ ticks,
      synthesizeTicks true (first :: rest) p = .ok ticks ∧
        ∀ panic, runDbBacktest true input (toRows ticks) ≠ .error (.panic panic) := by
  -- where every candle has a tick both builds make the same rows
  have synthesized : (∀ c ∈ first :: rest, ∃ tick,
      priceToTick true (p.rawPrice c) p.tickSpacing = .ok tick) → ∃ ticks,
        synthesizeTicks true (first :: rest) p = .ok ticks ∧
          synthesizeTicks false (first :: rest) p = .ok ticks := by
    intro each
    obtain ⟨tick, found⟩ := each first (List.mem_cons_self ..)
    obtain ⟨rows, checked, unchecked⟩ := candleRows_checked 0 each
    have before : ∀ checks, Machine.subChecked checks 64 first.timestamp 1 =
        .ok (first.timestamp - 1) := fun checks => Machine.checked_inRange checks slot
    simp only [synthesizeTicks, PoolSynthParams.baselineRow, before, found,
      priceToTick_checked found, Machine.ok_bind, pure, Except.pure, checked, unchecked]
    exact ⟨_, rfl, rfl⟩
  constructor
  · intro free
    obtain ⟨ticks, checked, unchecked⟩ := synthesized free.synthesis
    exact ⟨ticks, checked, free.replay ticks unchecked⟩
  · rintro ⟨ticks, checked, replay⟩
    -- the build with checks returns, so it found every tick
    have each : ∀ c ∈ first :: rest, ∃ tick,
        priceToTick true (p.rawPrice c) p.tickSpacing = .ok tick := by
      obtain ⟨_, _, _, others, _⟩ := synthesizeTicks_ok checked
      exact candleRows_each others
    obtain ⟨ticks', checked', unchecked⟩ := synthesized each
    cases checked.symm.trans checked'
    refine ⟨each, fun ticks' again => ?_⟩
    cases unchecked.symm.trans again
    exact replay

end Checked

end TickLiq
