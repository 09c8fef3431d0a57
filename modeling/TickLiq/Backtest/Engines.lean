import TickLiq.Backtest.StoredBackfill
import TickLiq.Backtest.SwitchedOff

/-!
# The two engines on one price path

Without rebalances both engines value the opening segment at the price of the day. They
count a day in range by different tests, the GBM engine by its price and the replay by
ticks rounded down to the spacing, so the replay also counts a price that has left the
range without leaving the tick of the bound.
-/
namespace TickLiq

open Machine (InRange)

/-- What both engines report of a day, besides its fees. -/
def DayResult.view (row : DayResult ℝ) : ℝ × ℝ × Bool := (row.price, row.ilUsd, row.inRange)

/-! ### The replay -/

namespace Replay

variable {input : DbBacktestInput ℝ} {checks : Bool} {tickLower tickUpper : ℤ}

/-- The rows reported if the stream ended here. -/
noncomputable def reported (replay : Replay ℝ) : List (ℝ × ℝ × Bool) :=
  (replay.dayResults ++ [replay.dayRow]).map DayResult.view

/-- A day of the opening segment with one row. -/
noncomputable def dayView (input : DbBacktestInput ℝ) (tickLower tickUpper : ℤ) (t : PoolTickRow) :
    ℝ × ℝ × Bool :=
  (input.uiPrice t, input.segment.il (input.uiPrice t) * input.initialValueUsd,
    decide (tickLower ≤ t.tickCurrent ∧ t.tickCurrent ≤ tickUpper))

theorem loop_totalRebalances {i : ℕ} {replay last : Replay ℝ} {ticks : List PoolTickRow}
    (returned : loop input checks i replay ticks = .ok last) :
    replay.totalRebalances ≤ last.totalRebalances := by
  refine loop_invariant (P := fun later => replay.totalRebalances ≤ later.totalRebalances)
    le_rfl ?_ returned
  intro i before t _ next held stepped
  exact held.trans (step_totalRebalances stepped)

/-- The current day after one more row, on a day of its own or on the day of a row with the
same tick. -/
theorem observe_view {replay : Replay ℝ} {seen : List PoolTickRow} {t : PoolTickRow}
    (left : LeftAlone input tickLower tickUpper seen replay)
    (fresh : dateNaive t.time = replay.currentDayDate →
      replay.dayWasInRange = true → tickLower ≤ t.tickCurrent ∧ t.tickCurrent ≤ tickUpper) :
    (replay.observe input seen.length t).dayRow.view = dayView input tickLower tickUpper t := by
  have observed := observe_leftAlone t left
  have valued := observe_valued input replay seen.length t
  have il : (replay.observe input seen.length t).dayRow.ilUsd =
      input.segment.il (input.uiPrice t) * input.initialValueUsd := by
    show (replay.observe input seen.length t).realizedIlUsd +
      (replay.observe input seen.length t).lastUnrealizedIlUsd = _
    rw [observed.realized, valued.unrealized, left.segment, zero_add]
  have flag : (replay.observe input seen.length t).dayRow.inRange =
      decide (tickLower ≤ t.tickCurrent ∧ t.tickCurrent ≤ tickUpper) := by
    show (if decide (replay.tickLower ≤ t.tickCurrent ∧ t.tickCurrent ≤ replay.tickUpper) then true
      else (replay.dayBoundary (dateNaive t.time)).dayWasInRange) = _
    rw [left.lower, left.upper]
    by_cases inside : tickLower ≤ t.tickCurrent ∧ t.tickCurrent ≤ tickUpper
    · simp only [inside, and_self, decide_true, if_true]
    -- a row outside keeps the flag of its day, if the day has one already
    · rw [decide_eq_false inside]
      by_cases same : dateNaive t.time = replay.currentDayDate
      · rw [dayBoundary_same same]
        exact Bool.eq_false_iff.mpr fun was => inside (fresh same was)
      · rw [dayBoundary_new same]
        rfl
  exact Prod.ext rfl (Prod.ext il flag)

/-- A row of the first day, the first of its kind or one with the tick of those before. -/
theorem step_firstDay {replay next : Replay ℝ} {seen : List PoolTickRow} {t : PoolTickRow}
    (left : LeftAlone input tickLower tickUpper seen replay)
    (date : dateNaive t.time = replay.currentDayDate) (noRows : replay.dayResults = [])
    (fresh : replay.dayWasInRange = true → tickLower ≤ t.tickCurrent ∧ t.tickCurrent ≤ tickUpper)
    (stepped : replay.step input checks seen.length t = .ok next)
    (none : next.totalRebalances = 0) :
    LeftAlone input tickLower tickUpper (seen ++ [t]) next ∧
      next.currentDayDate = replay.currentDayDate ∧ next.dayResults = [] ∧
      next.dayRow.view = dayView input tickLower tickUpper t := by
  have passed := step_passed stepped
  rcases step_cases stepped with held | recentered
  · refine ⟨?_, passed.date.trans date, (passed.sameDay date).1.trans noRows, ?_⟩
    · rw [held]
      exact observe_leftAlone t left
    · rw [held]
      exact observe_view left fun _ => fresh
  · rw [recentered.moved] at none
    exact absurd none (Nat.succ_ne_zero _)

/-- Rows of the first day that share a tick report it as one row would. -/
theorem loop_firstDay {replay last : Replay ℝ} {seen baseline : List PoolTickRow}
    {first : PoolTickRow} (left : LeftAlone input tickLower tickUpper seen replay)
    (like : ∀ t ∈ baseline, t.time = first.time ∧ t.tickCurrent = first.tickCurrent)
    (date : dateNaive first.time = replay.currentDayDate) (noRows : replay.dayResults = [])
    (fresh : replay.dayWasInRange = true →
      tickLower ≤ first.tickCurrent ∧ first.tickCurrent ≤ tickUpper)
    (returned : loop input checks seen.length replay (baseline ++ [first]) = .ok last)
    (zero : last.totalRebalances = 0) :
    LeftAlone input tickLower tickUpper (seen ++ (baseline ++ [first])) last ∧
      last.currentDayDate = replay.currentDayDate ∧ last.dayResults = [] ∧
      last.dayRow.view = dayView input tickLower tickUpper first := by
  induction baseline generalizing replay seen with
  | nil =>
    obtain ⟨next, stepped, done⟩ := loop_cons.mp returned
    cases done
    exact step_firstDay left date noRows fresh stepped zero
  | cons t baseline ih =>
    obtain ⟨next, stepped, rest⟩ := loop_cons.mp returned
    obtain ⟨time, tick⟩ := like t (List.mem_cons_self ..)
    -- a rebalance in between would be counted to the end
    have none : next.totalRebalances = 0 := by
      have counted := loop_totalRebalances rest
      omega
    obtain ⟨alone, sameDate, sameRows, row⟩ :=
      step_firstDay left (by rw [time, date]) noRows (by rw [tick]; exact fresh) stepped none
    -- the flag of the day is that of a row with the same tick
    have flag : next.dayWasInRange = true →
        tickLower ≤ first.tickCurrent ∧ first.tickCurrent ≤ tickUpper := by
      have inside : next.dayWasInRange =
          decide (tickLower ≤ t.tickCurrent ∧ t.tickCurrent ≤ tickUpper) :=
        congrArg (fun view => view.2.2) row
      rw [inside, ← tick]
      exact of_decide_eq_true
    have length : seen.length + 1 = (seen ++ [t]).length := by simp
    rw [length] at rest
    have others := ih alone (fun s member => like s (List.mem_cons_of_mem t member))
      (date.trans sameDate.symm) sameRows flag rest
    rw [List.append_assoc, List.singleton_append] at others
    exact ⟨others.1, others.2.1.trans sameDate, others.2.2⟩

/-- Rows on days of their own add their days to the report. -/
theorem loop_daily {replay last : Replay ℝ} {seen ticks : List PoolTickRow}
    (left : LeftAlone input tickLower tickUpper seen replay)
    (apart : (replay.currentDayDate :: ticks.map fun t => dateNaive t.time).IsChain (· ≠ ·))
    (returned : loop input checks seen.length replay ticks = .ok last)
    (zero : last.totalRebalances = 0) :
    last.reported = replay.reported ++ ticks.map (dayView input tickLower tickUpper) := by
  induction ticks generalizing replay seen with
  | nil =>
    cases returned
    rw [List.map_nil, List.append_nil]
  | cons t ticks ih =>
    obtain ⟨next, stepped, rest⟩ := loop_cons.mp returned
    simp only [List.map_cons] at apart
    obtain ⟨new, later⟩ := List.isChain_cons_cons.mp apart
    have none : next.totalRebalances = 0 := by
      have counted := loop_totalRebalances rest
      omega
    rcases step_cases stepped with held | recentered
    -- a row of a new day finishes the day before it
    · have passed := step_passed stepped
      have alone := observe_leftAlone t left
      have row := observe_view left fun same => absurd same.symm new
      rw [← held] at alone row
      have length : seen.length + 1 = (seen ++ [t]).length := by simp
      rw [length] at rest
      rw [← passed.date] at later
      rw [ih alone later rest, List.map_cons]
      simp only [reported, (passed.newDay new.symm).1, List.map_append, List.map_cons, List.map_nil,
        row, List.append_assoc, List.cons_append, List.nil_append]
    -- a rebalance would be counted to the end
    · rw [recentered.moved] at none
      exact absurd none (Nat.succ_ne_zero _)

theorem loop_daysInRange {i : ℕ} {replay last : Replay ℝ} {ticks : List PoolTickRow}
    (counted : replay.daysInRange = replay.dayResults.countP (·.inRange))
    (returned : loop input checks i replay ticks = .ok last) :
    last.daysInRange = last.dayResults.countP (·.inRange) := by
  refine loop_invariant (P := fun later => later.daysInRange = later.dayResults.countP (·.inRange))
    counted ?_ returned
  intro i before t _ next held stepped
  have observed : (before.observe input i t).daysInRange =
      (before.observe input i t).dayResults.countP (·.inRange) := by
    by_cases same : dateNaive t.time = before.currentDayDate
    · simp only [observe, accrue, dayBoundary_same same]
      exact held
    · simp only [observe, accrue, dayBoundary_new same, List.countP_append, ← held,
        List.countP_singleton]
      show (if before.dayWasInRange then before.daysInRange + 1 else before.daysInRange) =
        before.daysInRange + if before.dayWasInRange then 1 else 0
      cases before.dayWasInRange <;> rfl
  rcases step_cases stepped with unmoved | recentered
  · rw [unmoved]
    exact observed
  · rw [recentered.moved]
    exact observed

end Replay

section Daily

variable {checks : Bool} {input : DbBacktestInput ℝ}

/-- The days in range are the rows that say so. -/
theorem replay_daysInRange {ticks : List PoolTickRow} {result : BacktestResult ℝ}
    (returned : runDbBacktest checks input ticks = .ok result) :
    result.daysInRange = result.days.countP (·.inRange) := by
  cases ticks with
  | nil => cases returned
  | cons first ticks =>
    obtain ⟨opened, last, start, loop, finished⟩ := runDbBacktest_ok returned
    have opening := Replay.start_ok start
    have counted := Replay.loop_daysInRange (by rw [opening.daysInRange, opening.rows]; rfl) loop
    rw [finished, Replay.finish_days, List.countP_append, ← counted, List.countP_singleton]
    show (if last.dayWasInRange then last.daysInRange + 1 else last.daysInRange) =
      last.daysInRange + if last.dayWasInRange then 1 else 0
    cases last.dayWasInRange <;> rfl

/-- A stream without a rebalance that has one row a day, but for rows like its first one on the
first day, reports the opening segment day by day. -/
theorem replay_daily (baseline : List PoolTickRow) (first : PoolTickRow)
    (ticks : List PoolTickRow) {result : BacktestResult ℝ} {tickLower tickUpper : ℤ}
    (lower : input.tickBound checks input.priceLower = .ok tickLower)
    (upper : input.tickBound checks input.priceUpper = .ok tickUpper)
    (like : ∀ t ∈ baseline, t.time = first.time ∧ t.tickCurrent = first.tickCurrent)
    (apart : ((first :: ticks).map fun t => dateNaive t.time).IsChain (· ≠ ·))
    (still : ∀ t ∈ baseline ++ first :: ticks, ∀ pnl,
      ¬ Fires t.tickCurrent tickLower tickUpper pnl input.rebalanceCfg)
    (returned : runDbBacktest checks input (baseline ++ first :: ticks) = .ok result) :
    result.days.map DayResult.view =
      (first :: ticks).map (Replay.dayView input tickLower tickUpper) := by
  obtain ⟨head, tail, split⟩ := List.exists_cons_of_ne_nil
    (List.append_ne_nil_of_right_ne_nil baseline (List.cons_ne_nil first ticks))
  have time : head.time = first.time := by
    cases baseline with
    | nil => rw [(List.cons.inj split).1]
    | cons t baseline =>
      rw [← (List.cons.inj split).1]
      exact (like t (List.mem_cons_self ..)).1
  rw [split] at returned
  obtain ⟨opened, last, start, loop, finished⟩ := runDbBacktest_ok returned
  have opening := Replay.start_ok start
  have left := opening.leftAlone
  have openedLower := lower.symm.trans opening.lower
  have openedUpper := upper.symm.trans opening.upper
  rw [← Except.ok.inj openedLower, ← Except.ok.inj openedUpper] at left
  -- no row fires, so no row moves the range
  have zero : last.totalRebalances = 0 := by
    rcases Replay.loop_leftAlone left opening.rebalances loop with ⟨zero, _⟩ | ⟨_, fired⟩
    · exact zero
    · refine absurd ?_ fired
      intro seen t later place
      refine still t ?_ _
      rw [split, place]
      exact List.mem_append_right seen (List.mem_cons_self ..)
  -- the rows of the first day, then the days that follow
  rw [← split, List.append_cons] at loop
  obtain ⟨mid, through, after⟩ := Replay.loop_append.mp loop
  have midZero : mid.totalRebalances = 0 := by
    have counted := Replay.loop_totalRebalances after
    omega
  have fresh : opened.dayWasInRange = true →
      tickLower ≤ first.tickCurrent ∧ first.tickCurrent ≤ tickUpper := by
    rw [opening.wasInRange]
    exact fun was => absurd was Bool.false_ne_true
  obtain ⟨alone, sameDate, sameRows, row⟩ := Replay.loop_firstDay left like
    (by rw [opening.date, time]) opening.rows fresh through midZero
  rw [List.map_cons, ← time, ← opening.date, ← sameDate] at apart
  rw [Nat.zero_add] at after
  have report := Replay.loop_daily alone apart after zero
  rw [finished, Replay.finish_days]
  refine Eq.trans report ?_
  rw [Replay.reported, sameRows, List.nil_append, List.map_singleton, row, List.map_cons,
    List.singleton_append]

end Daily

/-! ### The GBM engine -/

namespace Gbm

variable {params : BacktestParams ℝ} {checks : Bool}

/-- A day of the opening segment. -/
noncomputable def dayView (params : BacktestParams ℝ) (price : ℝ) : ℝ × ℝ × Bool :=
  (price, params.segment.il price * params.initialValueUsd,
    decide (params.priceLower ≤ price ∧ price ≤ params.priceUpper))

theorem loop_daily (off : params.strategyRebalance = false) {prices : List ℝ} {last : Gbm ℝ}
    (through : loop params checks 1 (start params) prices = .ok last) : Unmoved params last ∧
      last.dayResults.map DayResult.view = prices.map (fun price => dayView params (max price 1e-6)) ∧
      last.daysInRange = last.dayResults.countP (·.inRange) := by
  induction prices using List.reverseRecOn generalizing last with
  | nil =>
    cases through
    refine ⟨⟨rfl, rfl, rfl, ?_⟩, rfl, rfl⟩
    intro row member
    cases member
  | append_singleton prices price ih =>
    -- the row of a day that nothing has moved before
    obtain ⟨mid, before, stepped⟩ := Machine.loop_concat.mp through
    obtain ⟨unmoved, rows, count⟩ := ih before
    have row : ((mid.accrue params (max price 1e-6)).dayRow params (1 + prices.length)
        (max price 1e-6)).view = dayView params (max price 1e-6) := by
      have lower : mid.priceLower = params.priceLower := congrArg Segment.priceLower unmoved.segment
      have upper : mid.priceUpper = params.priceUpper := congrArg Segment.priceUpper unmoved.segment
      refine Prod.ext rfl (Prod.ext ?_ ?_)
      · show mid.realizedIlUsd + mid.segment.il (max price 1e-6) * params.initialValueUsd = _
        rw [unmoved.realized, unmoved.segment, zero_add]
        rfl
      · show decide (mid.priceLower ≤ max price 1e-6 ∧ max price 1e-6 ≤ mid.priceUpper) = _
        rw [lower, upper]
        rfl
    refine ⟨step_unmoved off unmoved stepped, ?_, ?_⟩
    -- the counter is raised before the signal, which leaves it alone
    · rw [step_rows stepped, List.map_append, List.map_append, rows, List.map_singleton,
        List.map_singleton, row]
    · have inRange : last.daysInRange = (mid.accrue params (max price 1e-6)).daysInRange := by
        obtain ⟨rested, decided, made⟩ := step_ok stepped
        rw [made]
        rcases rebalanceDay_cases decided with held | moved
        · rw [held.1]
        · rw [moved.1]
          rfl
      rw [inRange, step_rows stepped, List.countP_append, ← count, List.countP_singleton]
      show (if mid.inRange (max price 1e-6) then mid.daysInRange + 1 else mid.daysInRange) =
        mid.daysInRange + if mid.inRange (max price 1e-6) then 1 else 0
      cases mid.inRange (max price 1e-6) <;> rfl

end Gbm

/-! ### Both engines -/

/-- One position and one price path in both engines, with rebalancing disabled in both. -/
structure SameBacktest (input : DbBacktestInput ℝ) (p : PoolSynthParams ℝ) (params : BacktestParams ℝ)
    (candles : List (OhlcvCandle ℝ)) (path : ℕ → ℝ) : Prop where
  segment : params.segment = input.segment
  capital : params.initialValueUsd = input.initialValueUsd
  spacing : p.tickSpacing = input.tickSpacing ∧ params.tickSpacing = input.tickSpacing
  decimals : p.decimalsA = p.decimalsB ∧ input.decimalsA = input.decimalsB
  drawn : Gbm.drawn params path = candles.map (·.close)
  strategy : params.strategyRebalance = false
  outOfRange : input.rebalanceCfg.rebalanceOutOfRange = false
  /-- Below the distance of every price of the path to both bounds. -/
  nearEdge : ∀ c ∈ candles,
    input.rebalanceCfg.nearEdgeTicks < alignedTick c.close input.tickSpacing -
        alignedTick input.priceLower input.tickSpacing ∧
      input.rebalanceCfg.nearEdgeTicks < alignedTick input.priceUpper input.tickSpacing -
        alignedTick c.close input.tickSpacing

/-- One candle a day, closing at an exact sqrt price. -/
structure DailyCloses (candles : List (OhlcvCandle ℝ)) : Prop where
  exact : ∀ c ∈ candles, ∃ sqrtPriceQ64, 0 < sqrtPriceQ64 ∧ sqrtPriceQ64 < 2 ^ 128 ∧
    c.close = sqrtQ64ToPrice sqrtPriceQ64
  days : candles.IsChain fun a b =>
    dateNaive (fromTimestamp a.timestamp) < dateNaive (fromTimestamp b.timestamp)

/-- A price outside the range on the tick of the bound that it has passed. -/
noncomputable def DbBacktestInput.onEdge (input : DbBacktestInput ℝ) (price : ℝ) : Bool :=
  decide ((price < input.priceLower ∧
      alignedTick price input.tickSpacing = alignedTick input.priceLower input.tickSpacing) ∨
    (input.priceUpper < price ∧
      alignedTick price input.tickSpacing = alignedTick input.priceUpper input.tickSpacing))

/-- Between the ticks of the bounds are the prices of the range and those just outside it. -/
theorem between_ticks_iff {input : DbBacktestInput ℝ} {price : ℝ} (spacing : 0 < input.tickSpacing)
    (positive : 0 < price) (bottom : 0 < input.priceLower)
    (ordered : input.priceLower < input.priceUpper) :
    (alignedTick input.priceLower input.tickSpacing ≤ alignedTick price input.tickSpacing ∧
        alignedTick price input.tickSpacing ≤ alignedTick input.priceUpper input.tickSpacing) ↔
      (input.priceLower ≤ price ∧ price ≤ input.priceUpper) ∨ input.onEdge price = true := by
  have bounds := alignedTick_mono spacing bottom ordered.le
  rw [DbBacktestInput.onEdge, decide_eq_true_iff]
  rcases lt_or_ge price input.priceLower with below | above
  · have under := alignedTick_mono spacing positive below.le
    have notAbove := ordered.le.trans' below.le
    grind
  · have aboveLower := alignedTick_mono spacing bottom above
    rcases lt_or_ge input.priceUpper price with beyond | within
    · have past := alignedTick_mono spacing (bottom.trans ordered) beyond.le
      grind
    · have under := alignedTick_mono spacing positive within
      grind

/-- An exact price is a float. -/
theorem exact_sized {sqrtPriceQ64 : ℕ} {price : ℝ} (positive : 0 < sqrtPriceQ64)
    (fits : sqrtPriceQ64 < 2 ^ 128) (exact : price = sqrtQ64ToPrice sqrtPriceQ64) :
    FloatSized price := by
  have least : ((2 : ℝ) ^ 64)⁻¹ ≤ (sqrtPriceQ64 : ℝ) / twoPow64 := by
    rw [twoPow64_eq, inv_eq_one_div]
    exact div_le_div_of_nonneg_right (Nat.one_le_cast.mpr positive) (by positivity)
  have root : (sqrtPriceQ64 : ℝ) / twoPow64 < 2 ^ 64 := by
    rw [div_lt_iff₀ twoPow64_pos, twoPow64_eq, ← pow_add]
    exact_mod_cast fits
  have nonneg : 0 ≤ (sqrtPriceQ64 : ℝ) / twoPow64 := div_nonneg (Nat.cast_nonneg _) twoPow64_pos.le
  rw [exact, sqrtQ64ToPrice_eq]
  refine ⟨?_, ?_⟩ <;> rw [Nat.cast_pow, Nat.cast_ofNat]
  · calc ((2 : ℝ) ^ 1074)⁻¹ ≤ (2 ^ 128)⁻¹ :=
          inv_anti₀ (by positivity) (pow_le_pow_right₀ one_le_two (by decide))
      _ = (2 ^ 64)⁻¹ * (2 ^ 64)⁻¹ := by rw [← mul_inv, ← pow_add]
      _ ≤ (sqrtPriceQ64 : ℝ) / twoPow64 * (sqrtPriceQ64 / twoPow64) :=
          mul_le_mul least least (by positivity) nonneg
  · calc (sqrtPriceQ64 : ℝ) / twoPow64 * (sqrtPriceQ64 / twoPow64) < 2 ^ 64 * 2 ^ 64 :=
          mul_lt_mul'' root root nonneg nonneg
      _ = 2 ^ 128 := by rw [← pow_add]
      _ ≤ 2 ^ 1024 := pow_le_pow_right₀ one_le_two (by decide)

/-- What the replay reads of a candle's row. -/
theorem candleRows_charts {p : PoolSynthParams ℝ} {checks : Bool} {feeGrowthB : ℕ}
    {rows : List PoolTick} (candles : List (OhlcvCandle ℝ)) (raw : p.decimalsA = p.decimalsB)
    (spacing : 0 < p.tickSpacing) (fits : InRange 32 p.tickSpacing)
    (sized : ∀ c ∈ candles, FloatSized c.close)
    (returned : p.candleRows checks feeGrowthB candles = .ok rows) :
    (toRows rows).map (fun t => (t.time, t.tickCurrent, t.sqrtPrice)) = candles.map fun c =>
      (fromTimestamp c.timestamp, alignedTick c.close p.tickSpacing, priceToSqrtQ64 c.close) := by
  induction candles generalizing feeGrowthB rows with
  | nil =>
    cases returned
    rfl
  | cons c candles ih =>
    obtain ⟨row, rest, first, others, split⟩ := PoolSynthParams.candleRows_ok returned
    obtain ⟨tickCurrent, found, made⟩ := PoolSynthParams.candleRow_ok first
    subst split
    have here := sized c (List.mem_cons_self ..)
    have price : p.rawPrice c = c.close := by
      rw [PoolSynthParams.rawPrice, raw, F64.uiFactor_real, uiFactor_self, div_one]
    rw [price, priceToTick_aligned spacing fits here.lower here.upper'] at found
    have tail := ih (fun d member => sized d (List.mem_cons_of_mem c member)) others
    rw [toRows, List.map_cons, List.map_cons, List.map_cons, ← toRows, tail, made,
      ← Except.ok.inj found, price]
    rfl

section Charts

variable {input : DbBacktestInput ℝ} {candles : List (OhlcvCandle ℝ)} {ticks : List PoolTickRow}
  (charts : ticks.map (fun t => (t.time, t.tickCurrent, t.sqrtPrice)) = candles.map fun c =>
    (fromTimestamp c.timestamp, alignedTick c.close input.tickSpacing, priceToSqrtQ64 c.close))
include charts

theorem charted_tick : ∀ t ∈ ticks, ∃ c ∈ candles,
    t.tickCurrent = alignedTick c.close input.tickSpacing := by
  intro t member
  have chart := List.mem_map_of_mem (f := fun t => (t.time, t.tickCurrent, t.sqrtPrice)) member
  rw [charts] at chart
  obtain ⟨c, inside, made⟩ := List.mem_map.mp chart
  exact ⟨c, inside, congrArg (fun chart => chart.2.1) made.symm⟩

theorem charted_dates (daily : DailyCloses candles) :
    (ticks.map fun t => dateNaive t.time).IsChain (· ≠ ·) := by
  have dates : ticks.map (fun t => dateNaive t.time) =
      candles.map fun c => dateNaive (fromTimestamp c.timestamp) := by
    have times := congrArg (List.map fun chart => dateNaive chart.1) charts
    rw [List.map_map, List.map_map] at times
    exact times
  rw [dates, List.isChain_map]
  exact daily.days.imp fun a b earlier => ne_of_lt earlier

/-- A row's price is the close it was made of. -/
theorem charted_views (factor : input.uiFactor = 1)
    (exact : ∀ c ∈ candles, sqrtQ64ToPrice (priceToSqrtQ64 c.close) = c.close)
    (tickLower tickUpper : ℤ) : ticks.map (Replay.dayView input tickLower tickUpper) =
      candles.map fun c => (c.close, input.segment.il c.close * input.initialValueUsd,
        decide (tickLower ≤ alignedTick c.close input.tickSpacing ∧
          alignedTick c.close input.tickSpacing ≤ tickUpper)) := by
  have charted := congrArg (List.map fun chart : ℤ × ℤ × ℕ =>
    (sqrtQ64ToPrice chart.2.2, input.segment.il (sqrtQ64ToPrice chart.2.2) *
      input.initialValueUsd, decide (tickLower ≤ chart.2.1 ∧ chart.2.1 ≤ tickUpper))) charts
  rw [List.map_map, List.map_map] at charted
  refine (Eq.trans ?_ charted).trans ?_
  · apply List.map_congr_left
    intro t _
    simp only [Replay.dayView, DbBacktestInput.uiPrice, factor, mul_one, Function.comp_apply,
      F64.sqrtQ64ToPrice_real]
  · apply List.map_congr_left
    intro c member
    simp only [Function.comp_apply, exact c member]

end Charts

section Engines

variable {input : DbBacktestInput ℝ} {p : PoolSynthParams ℝ} {params : BacktestParams ℝ}
  {candles : List (OhlcvCandle ℝ)} {path : ℕ → ℝ} {checks : Bool}

/-- A backfill of candles is its baseline row, like the first candle's, and the candles' rows. -/
theorem synthesized_rows {first : OhlcvCandle ℝ} {rows : List PoolTick}
    (synthesized : p.candleRows checks 0 (first :: candles) = .ok rows ∨
      synthesizeTicks checks (first :: candles) p = .ok rows) :
    ∃ baseline row more, p.candleRows checks 0 (first :: candles) = .ok (row :: more) ∧
      rows = baseline ++ row :: more ∧
      ∀ t ∈ baseline, t.observedAt = row.observedAt ∧ t.tickCurrent = row.tickCurrent := by
  rcases synthesized with plain | whole
  · obtain ⟨row, more, _, _, made⟩ := PoolSynthParams.candleRows_ok plain
    rw [made] at plain ⊢
    refine ⟨[], row, more, plain, rfl, ?_⟩
    intro t member
    cases member
  · obtain ⟨baseline, others, start, plain, split⟩ := synthesizeTicks_ok whole
    obtain ⟨row, more, head, _, made⟩ := PoolSynthParams.candleRows_ok plain
    rw [made] at plain
    rw [split, made]
    refine ⟨[baseline], row, more, plain, rfl, ?_⟩
    -- both rows are made of the first close and time
    intro t member
    rw [List.mem_singleton.mp member]
    obtain ⟨_, tick, _, found, started⟩ := PoolSynthParams.baselineRow_ok start
    obtain ⟨tick', found', made'⟩ := PoolSynthParams.candleRow_ok head
    have same : tick = tick' := Except.ok.inj (found.symm.trans found')
    rw [started, made', same]
    exact ⟨rfl, rfl⟩

theorem synthesized_nil {rows : List PoolTick} (synthesized : p.candleRows checks 0 [] = .ok rows ∨
    synthesizeTicks checks [] p = .ok rows) : rows = [] := by
  rcases synthesized with plain | whole
  · cases plain
    rfl
  · cases whole
    rfl

theorem closes_sized (daily : DailyCloses candles) : ∀ c ∈ candles, FloatSized c.close := by
  intro c member
  obtain ⟨sqrtPriceQ64, positive, fits, exact⟩ := daily.exact c member
  exact exact_sized positive fits exact

/-- An exact close survives the way through its row. -/
theorem close_exact (daily : DailyCloses candles) :
    ∀ c ∈ candles, sqrtQ64ToPrice (priceToSqrtQ64 c.close) = c.close := by
  intro c member
  obtain ⟨sqrtPriceQ64, positive, fits, exact⟩ := daily.exact c member
  rw [exact, priceToSqrtQ64_sqrtQ64ToPrice positive fits]

theorem gbm_views (same : SameBacktest input p params candles path) {result : BacktestResult ℝ}
    (returned : Gbm.run checks params path = .ok result) :
    result.days.map DayResult.view =
        candles.map (fun c => Gbm.dayView params (max c.close 1e-6)) ∧
      result.daysInRange = result.days.countP (·.inRange) := by
  obtain ⟨last, through, finished⟩ := Gbm.run_ok.mp returned
  obtain ⟨_, rows, count⟩ := Gbm.loop_daily same.strategy through
  rw [finished]
  refine ⟨?_, count⟩
  rw [same.drawn, List.map_map] at rows
  exact rows

variable (same : SameBacktest input p params candles path) (daily : DailyCloses candles)
include same daily

variable (spacing : 0 < input.tickSpacing) (fits : InRange 32 input.tickSpacing)
  (lower : FloatSized input.priceLower) (upper : FloatSized input.priceUpper)
include spacing fits lower upper

/-- No close fires the signal against the ticks of the opening range. -/
theorem closes_still : ∀ c ∈ candles, ∀ pnl,
    ¬ Fires (alignedTick c.close input.tickSpacing)
      (alignedTick input.priceLower input.tickSpacing)
      (alignedTick input.priceUpper input.tickSpacing) pnl input.rebalanceCfg := by
  intro c member pnl fires
  have sized := closes_sized daily c member
  obtain ⟨fromLower, fromUpper⟩ := same.nearEdge c member
  have toLower := tickDistance_eq (alignedTick_sub_inRange spacing fits sized.lower sized.upper'
    lower.lower lower.upper')
  have toUpper := tickDistance_eq (alignedTick_sub_inRange spacing fits upper.lower upper.upper'
    sized.lower sized.upper')
  rcases fires with outside | near
  · rw [same.outOfRange] at outside
    exact Bool.false_ne_true outside.1
  · rw [toLower, toUpper] at near
    omega

/-- The rows of a backfill stand on the closes, the baseline row on the first. -/
theorem rows_still {baseline more : List PoolTick} {row : PoolTick}
    (charts : (toRows (row :: more)).map (fun t => (t.time, t.tickCurrent, t.sqrtPrice)) =
      candles.map fun c => (fromTimestamp c.timestamp, alignedTick c.close input.tickSpacing,
        priceToSqrtQ64 c.close))
    (like : ∀ t ∈ baseline, t.observedAt = row.observedAt ∧ t.tickCurrent = row.tickCurrent) :
    ∀ t ∈ toRows baseline ++ toRows (row :: more), ∀ pnl,
      ¬ Fires t.tickCurrent (alignedTick input.priceLower input.tickSpacing)
        (alignedTick input.priceUpper input.tickSpacing) pnl input.rebalanceCfg := by
  have still := closes_still same daily spacing fits lower upper
  intro t member pnl
  rcases List.mem_append.mp member with before | after
  · obtain ⟨b, inside, made⟩ := List.mem_map.mp before
    obtain ⟨c, among, tick⟩ := charted_tick charts row.toRow (List.mem_cons_self ..)
    have equal : t.tickCurrent = row.toRow.tickCurrent := by
      rw [← made]
      exact (like b inside).2
    rw [equal, tick]
    exact still c among pnl
  · obtain ⟨c, among, tick⟩ := charted_tick charts t after
    rw [tick]
    exact still c among pnl

theorem replay_views {rows : List PoolTick} {result : BacktestResult ℝ}
    (synthesized : p.candleRows checks 0 candles = .ok rows ∨
      synthesizeTicks checks candles p = .ok rows)
    (returned : runDbBacktest checks input (toRows rows) = .ok result) :
    result.days.map DayResult.view = candles.map fun c =>
      (c.close, input.segment.il c.close * input.initialValueUsd,
        decide (alignedTick input.priceLower input.tickSpacing ≤
            alignedTick c.close input.tickSpacing ∧
          alignedTick c.close input.tickSpacing ≤
            alignedTick input.priceUpper input.tickSpacing)) := by
  cases candles with
  | nil =>
    -- no candle makes no row, and no row no result
    rw [synthesized_nil synthesized] at returned
    cases returned
  | cons first candles =>
    obtain ⟨baseline, row, more, plain, split, like⟩ := synthesized_rows synthesized
    have charts := candleRows_charts (first :: candles) same.decimals.1
      (same.spacing.1 ▸ spacing) (same.spacing.1 ▸ fits) (closes_sized daily) plain
    rw [same.spacing.1] at charts
    have factor : input.uiFactor = 1 := by
      rw [DbBacktestInput.uiFactor, same.decimals.2, F64.uiFactor_real, uiFactor_self]
    have placed : ∀ t ∈ toRows baseline,
        t.time = row.toRow.time ∧ t.tickCurrent = row.toRow.tickCurrent := by
      intro t member
      obtain ⟨b, inside, made⟩ := List.mem_map.mp member
      rw [← made]
      exact like b inside
    rw [split, toRows, List.map_append] at returned
    have views := replay_daily (toRows baseline) row.toRow (toRows more)
      (DbBacktestInput.tickBound_aligned same.decimals.2 spacing fits lower checks)
      (DbBacktestInput.tickBound_aligned same.decimals.2 spacing fits upper checks)
      placed (charted_dates charts daily)
      (rows_still same daily spacing fits lower upper charts like) returned
    exact views.trans (charted_views charts factor (close_exact daily) _ _)

end Engines

/-- Rows that are made of the same elements relate as their elements do. -/
theorem forall₂_views {α β γ δ ε : Type*} {R : α → β → Prop} {view : α → δ} {view' : β → ε}
    {make : γ → δ} {make' : γ → ε} (elements : List γ) {rows : List α} {rows' : List β}
    (made : rows.map view = elements.map make) (made' : rows'.map view' = elements.map make')
    (related : ∀ c ∈ elements, ∀ a b, view a = make c → view' b = make' c → R a b) :
    List.Forall₂ R rows rows' := by
  induction elements generalizing rows rows' with
  | nil =>
    rw [List.map_eq_nil_iff.mp made, List.map_eq_nil_iff.mp made']
    exact List.Forall₂.nil
  | cons c elements ih =>
    obtain ⟨a, rows, splits, head, tail⟩ := List.map_eq_cons_iff.mp made
    obtain ⟨b, rows', splits', head', tail'⟩ := List.map_eq_cons_iff.mp made'
    rw [splits, splits']
    refine List.Forall₂.cons (related c (List.mem_cons_self ..) a b head head') ?_
    exact ih tail tail' fun d member => related d (List.mem_cons_of_mem c member)

/-- Two kinds that exclude each other are counted apart. -/
theorem countP_split {α : Type*} {p q r : α → Bool} (elements : List α)
    (either : ∀ a ∈ elements, p a = true ↔ q a = true ∨ r a = true)
    (apart : ∀ a ∈ elements, q a = true → r a = false) :
    elements.countP p = elements.countP q + elements.countP r := by
  induction elements with
  | nil => rfl
  | cons a elements ih =>
    have tail := ih (fun b member => either b (List.mem_cons_of_mem a member))
      fun b member => apart b (List.mem_cons_of_mem a member)
    have here := either a (List.mem_cons_self ..)
    have excluded := apart a (List.mem_cons_self ..)
    rw [List.countP_cons, List.countP_cons, List.countP_cons, tail]
    cases first : q a with
    | true =>
      rw [first] at here excluded
      rw [here.mpr (Or.inl rfl), excluded rfl]
      simp only [if_true, Bool.false_eq_true, if_false]
      omega
    | false =>
      have both : p a = r a := by
        rw [first] at here
        exact Bool.eq_iff_iff.mpr (by simpa using here)
      rw [both]
      simp only [Bool.false_eq_true, if_false]
      omega

/-- Where integer arithmetic wraps, both engines have a result. -/
theorem engines_return {input : DbBacktestInput ℝ} {p : PoolSynthParams ℝ} {params : BacktestParams ℝ}
    {candles : List (OhlcvCandle ℝ)} {path : ℕ → ℝ}
    (same : SameBacktest input p params candles path) (spacing : 0 < input.tickSpacing)
    (listed : candles ≠ []) : ∃ rows replayed simulated,
      synthesizeTicks false candles p = .ok rows ∧
      runDbBacktest false input (toRows rows) = .ok replayed ∧
      Gbm.run false params path = .ok simulated := by
  obtain ⟨rows, synthesized⟩ := synthesizeTicks_unchecked (same.spacing.1.symm ▸ spacing) candles
  obtain ⟨simulated, right⟩ := Gbm.run_unchecked (same.spacing.2.symm ▸ spacing) path
  obtain ⟨replayed, left⟩ :=
    runDbBacktest_unchecked spacing (synthesizeTicks_listed listed synthesized)
  exact ⟨rows, replayed, simulated, synthesized, left, right⟩

section Flags

variable {input : DbBacktestInput ℝ} {p : PoolSynthParams ℝ} {params : BacktestParams ℝ}
  {candles : List (OhlcvCandle ℝ)} {path : ℕ → ℝ}
  (same : SameBacktest input p params candles path)
include same

theorem gbm_flag_iff (price : ℝ) : (Gbm.dayView params price).2.2 = true ↔
    input.priceLower ≤ price ∧ price ≤ input.priceUpper := by
  have rangeLower : params.priceLower = input.priceLower := congrArg Segment.priceLower same.segment
  have rangeUpper : params.priceUpper = input.priceUpper := congrArg Segment.priceUpper same.segment
  rw [← rangeLower, ← rangeUpper]
  exact decide_eq_true_iff

theorem gbm_flag_off_edge (price : ℝ) (inside : (Gbm.dayView params price).2.2 = true) :
    input.onEdge price = false := by
  have range := (gbm_flag_iff same price).mp inside
  apply decide_eq_false
  intro edge
  rcases edge with below | beyond
  · exact absurd range.1 (not_le.mpr below.1)
  · exact absurd range.2 (not_le.mpr beyond.1)

/-- The replay counts the days on the edge besides those of the GBM engine. -/
theorem replay_flag_iff (spacing : 0 < input.tickSpacing) (lower : FloatSized input.priceLower)
    (ordered : input.priceLower < input.priceUpper) {price : ℝ} (positive : 0 < price) :
    decide (alignedTick input.priceLower input.tickSpacing ≤ alignedTick price input.tickSpacing ∧
      alignedTick price input.tickSpacing ≤ alignedTick input.priceUpper input.tickSpacing) = true ↔
      (Gbm.dayView params price).2.2 = true ∨ input.onEdge price = true := by
  rw [decide_eq_true_iff, gbm_flag_iff same,
    between_ticks_iff spacing positive lower.pos ordered]

/-- So the flags of a day agree exactly off the edge. -/
theorem flags_agree_iff (spacing : 0 < input.tickSpacing) (lower : FloatSized input.priceLower)
    (ordered : input.priceLower < input.priceUpper) {price : ℝ} (positive : 0 < price) :
    decide (alignedTick input.priceLower input.tickSpacing ≤ alignedTick price input.tickSpacing ∧
      alignedTick price input.tickSpacing ≤ alignedTick input.priceUpper input.tickSpacing) =
      (Gbm.dayView params price).2.2 ↔ input.onEdge price = false := by
  rw [Bool.eq_iff_iff, replay_flag_iff same spacing lower ordered positive]
  cases edge : input.onEdge price with
  | false => simp
  | true =>
    have off : (Gbm.dayView params price).2.2 = false := by
      by_contra inside
      have excluded := gbm_flag_off_edge same price (Bool.eq_true_of_not_eq_false inside)
      rw [edge] at excluded
      exact Bool.noConfusion excluded
    rw [off]
    simp

end Flags

/-- The same path gives the same prices, up to the GBM engine's guard, and behind it the same
losses. The engines differ on a day's range exactly if the price has left it on the tick of the
bound, and on the days in range by the number of such days. -/
theorem engines_agree {input : DbBacktestInput ℝ} {p : PoolSynthParams ℝ} {params : BacktestParams ℝ}
    {candles : List (OhlcvCandle ℝ)} {path : ℕ → ℝ}
    (same : SameBacktest input p params candles path) (daily : DailyCloses candles)
    (spacing : 0 < input.tickSpacing) (fits : InRange 32 input.tickSpacing)
    (lower : FloatSized input.priceLower) (upper : FloatSized input.priceUpper)
    (ordered : input.priceLower < input.priceUpper) :
    (∀ checks rows replayed simulated,
      (p.candleRows checks 0 candles = .ok rows ∨ synthesizeTicks checks candles p = .ok rows) →
      runDbBacktest checks input (toRows rows) = .ok replayed →
      Gbm.run checks params path = .ok simulated →
      List.Forall₂ (fun row row' => row'.price = max row.price 1e-6 ∧ (1e-6 ≤ row.price →
        row.ilUsd = row'.ilUsd ∧ (row.inRange = row'.inRange ↔ input.onEdge row.price = false)))
          replayed.days simulated.days ∧
      ((∀ c ∈ candles, 1e-6 ≤ c.close) → replayed.daysInRange =
        simulated.daysInRange + replayed.days.countP fun row => input.onEdge row.price)) ∧
    (candles ≠ [] → ∃ rows replayed simulated, synthesizeTicks false candles p = .ok rows ∧
      runDbBacktest false input (toRows rows) = .ok replayed ∧
      Gbm.run false params path = .ok simulated) := by
  refine ⟨?_, engines_return same spacing⟩
  intro checks rows replayed simulated synthesized left right
  -- both engines' days as views of the same candles, to be compared one by one
  have views := replay_views same daily spacing fits lower upper synthesized left
  obtain ⟨views', count'⟩ := gbm_views same right
  have positive : ∀ c ∈ candles, 0 < c.close := fun c member => (closes_sized daily c member).pos
  constructor
  · refine forall₂_views candles views views' ?_
    intro c member row row' made made'
    have price : row.price = c.close := congrArg Prod.fst made
    have price' : row'.price = max c.close 1e-6 := congrArg Prod.fst made'
    refine ⟨price'.trans (congrArg (max · 1e-6) price.symm), ?_⟩
    -- from here on the clamp of the GBM draw does nothing
    intro guarded
    rw [price] at guarded
    rw [max_eq_left guarded] at made'
    have il : row.ilUsd = _ := congrArg (fun view => view.2.1) made
    have il' : row'.ilUsd = _ := congrArg (fun view => view.2.1) made'
    have inRange : row.inRange = _ := congrArg (fun view => view.2.2) made
    have inRange' : row'.inRange = _ := congrArg (fun view => view.2.2) made'
    constructor
    · rw [il, il']
      show _ = params.segment.il c.close * params.initialValueUsd
      rw [same.segment, same.capital]
    · rw [inRange, inRange', price]
      exact flags_agree_iff same spacing lower ordered (positive c member)
  · intro guarded
    have closes : candles.map (fun c => Gbm.dayView params (max c.close 1e-6)) =
        candles.map fun c => Gbm.dayView params c.close := by
      apply List.map_congr_left
      intro c member
      rw [max_eq_left (guarded c member)]
    rw [closes] at views'
    have days := congrArg (List.countP fun view => view.2.2) views
    have days' := congrArg (List.countP fun view => view.2.2) views'
    have edges := congrArg (List.countP fun view => input.onEdge view.1) views
    rw [List.countP_map, List.countP_map] at days days' edges
    -- the replay counts the days on the edge as well
    calc replayed.daysInRange = _ := (replay_daysInRange left).trans days
      _ = _ := countP_split candles
        (fun c member => replay_flag_iff same spacing lower ordered (positive c member))
        fun c _ => gbm_flag_off_edge same c.close
      _ = _ := congrArg₂ (· + ·) (count'.trans days').symm edges.symm

/-- A position at price one whose range ends at two, on one day at price one. -/
noncomputable def calmInput (priceLower : ℝ) : DbBacktestInput ℝ :=
  ⟨1, 1, priceLower, (2 : ℕ), 1, 1, 1, 0, 0, ⟨false, -100000000, 0⟩, 0.95, 1.05⟩

noncomputable def calmParams (priceLower : ℝ) : BacktestParams ℝ :=
  ⟨1, priceLower, (2 : ℕ), 1, 1, 1, 0, (10000 : ℕ), 1, 1, false⟩

noncomputable def calmPool : PoolSynthParams ℝ := ⟨"pool", 1, 1, 0, 0, 1⟩

noncomputable def calmCandles : List (OhlcvCandle ℝ) := [⟨0, 1, 0⟩]

theorem calm_same {priceLower : ℝ} (sized : FloatSized priceLower) :
    SameBacktest (calmInput priceLower) calmPool (calmParams priceLower) calmCandles
      (fun _ => 1) := by
  refine ⟨rfl, rfl, ⟨rfl, rfl⟩, ⟨rfl, rfl⟩, rfl, rfl, rfl, ?_⟩
  intro c member
  rw [List.mem_singleton.mp member]
  have two : FloatSized 2 := floatSized_of_le (by norm_num) (by norm_num)
  have lower := rawTick_bounds sized.lower sized.upper'
  have upper := rawTick_bounds two.lower two.upper'
  simp only [calmInput, alignedTick, Nat.cast_ofNat, rawTick_one, Int.ediv_one, Int.mul_one]
  omega

theorem calm_daily : DailyCloses calmCandles := by
  refine ⟨?_, List.IsChain.singleton _⟩
  intro c member
  rw [List.mem_singleton.mp member]
  refine ⟨2 ^ 64, by decide, by decide, ?_⟩
  rw [sqrtQ64ToPrice_eq]
  norm_num [twoPow64]

theorem engines_agree_calm : ∃ rows replayed simulated,
    synthesizeTicks false calmCandles calmPool = .ok rows ∧
    runDbBacktest false (calmInput 0.5) (toRows rows) = .ok replayed ∧
    Gbm.run false (calmParams 0.5) (fun _ => 1) = .ok simulated ∧
    replayed.daysInRange =
      simulated.daysInRange + replayed.days.countP fun row => (calmInput 0.5).onEdge row.price := by
  have half : FloatSized (calmInput 0.5).priceLower :=
    floatSized_of_le (by norm_num [calmInput]) (by norm_num [calmInput])
  have two : FloatSized (calmInput 0.5).priceUpper :=
    floatSized_of_le (by norm_num [calmInput]) (by norm_num [calmInput])
  obtain ⟨agree, returns⟩ := engines_agree (calm_same half) calm_daily (by decide) (by decide) half
    two (by norm_num [calmInput])
  obtain ⟨rows, replayed, simulated, synthesized, left, right⟩ :=
    returns (List.cons_ne_nil _ _)
  refine ⟨rows, replayed, simulated, synthesized, left, right, ?_⟩
  apply (agree false rows replayed simulated (Or.inr synthesized) left right).2
  intro c member
  rw [List.mem_singleton.mp member]
  norm_num

/-- The lower bound is above the price, by less than a tick. -/
theorem engines_differ_on_edge : ∃ rows replayed simulated,
    synthesizeTicks false calmCandles calmPool = .ok rows ∧
    runDbBacktest false (calmInput 1.00001) (toRows rows) = .ok replayed ∧
    Gbm.run false (calmParams 1.00001) (fun _ => 1) = .ok simulated ∧
    replayed.daysInRange = 1 ∧ simulated.daysInRange = 0 := by
  have edge : FloatSized (calmInput 1.00001).priceLower :=
    floatSized_of_le (by norm_num [calmInput]) (by norm_num [calmInput])
  have two : FloatSized (calmInput 1.00001).priceUpper :=
    floatSized_of_le (by norm_num [calmInput]) (by norm_num [calmInput])
  have same : SameBacktest (calmInput 1.00001) calmPool (calmParams 1.00001) calmCandles
      (fun _ => 1) := calm_same edge
  obtain ⟨rows, replayed, simulated, synthesized, left, right⟩ :=
    engines_return same (show 0 < (calmInput 1.00001).tickSpacing by decide) (List.cons_ne_nil _ _)
  refine ⟨rows, replayed, simulated, synthesized, left, right, ?_, ?_⟩
  · have views := replay_views same calm_daily (by decide) (by decide) edge two
      (Or.inr synthesized) left
    have days := congrArg (List.countP fun view => view.2.2) views
    rw [List.countP_map] at days
    rw [replay_daysInRange left]
    refine days.trans ?_
    -- tick zero, of the bound and of the price
    have bound : rawTick 1.00001 = 0 := rawTick_zero (by norm_num) (by norm_num)
    have above := rawTick_pos (show (1.0001 : ℝ) ≤ 2 by norm_num)
    simp only [calmCandles, calmInput, List.map_singleton, List.countP_singleton, alignedTick,
      Nat.cast_ofNat, bound, rawTick_one, Int.ediv_one, Int.mul_one, le_refl, above.le, and_self,
      decide_true, if_true]
  · obtain ⟨views, count⟩ := gbm_views same right
    have days := congrArg (List.countP fun view => view.2.2) views
    rw [List.countP_map] at days
    rw [count]
    refine days.trans ?_
    have guarded : max (1 : ℝ) 1e-6 = 1 := by norm_num
    have outside : (Gbm.dayView (calmParams 1.00001) 1).2.2 = false := by
      apply decide_eq_false
      intro inside
      exact absurd inside.1 (by norm_num [calmParams])
    simp only [calmCandles, List.map_singleton, List.countP_singleton, guarded, outside,
      Bool.false_eq_true, if_false]

end TickLiq
