import TickLiq.Backtest.Marks
import TickLiq.Backtest.RoundTrip

/-!
# Rebalancing switched off

With the range test off and an edge distance of zero the replay still rebalances at or
beyond a bound, as soon as the P&L gate lets it. It stays off exactly on the streams no
row of which does that to a position that was left alone. The GBM engine does not ask
for a signal at all. Nothing is assumed of the numbers: fees and losses are added up in
the order of the engines, and stand here as the engines compute them.
-/
namespace TickLiq

open Machine (bind_ok_iff)

variable {K : Type} [F64 K]

/-- A report without a rebalance, whose losses are those of the opening segment on top of a
realized loss of zero. -/
structure StaysOff (segment : Segment K) (capital : K) (result : BacktestResult K) : Prop where
  rebalances : result.totalRebalances = 0
  rows : ∀ row ∈ result.days, row.ilUsd = 0 + segment.il row.price * capital
  total : result.totalIlUsd =
    (result.days.getLast?.map fun row => 0 + segment.il row.price * capital).getD 0

namespace DbBacktestInput

/-- `--rebalance` is not given and `--near-edge-ticks` is zero. -/
structure Off (input : DbBacktestInput K) : Prop where
  outOfRange : input.rebalanceCfg.rebalanceOutOfRange = false
  nearEdge : input.rebalanceCfg.nearEdgeTicks = 0

/-- The net P&L on a row of a position that has been left alone since it was opened: fees, a
realized loss of zero and the loss of the opening segment. -/
def heldPnl (input : DbBacktestInput K) (seen : List PoolTickRow) (t : PoolTickRow) : K :=
  input.streamFees 0 (seen ++ [t]) + 0 +
    input.segment.il (input.uiPrice t) * input.initialValueUsd

/-- The P&L gate is shut, or the tick lies strictly between the bounds. -/
def RowQuiet (input : DbBacktestInput K) (tickLower tickUpper : ℤ) (seen : List PoolTickRow)
    (t : PoolTickRow) : Prop :=
  input.heldPnl seen t < input.rebalanceCfg.minNetPnlUsd ∨
    (0 < tickDistance t.tickCurrent tickLower ∧ 0 < tickDistance tickUpper t.tickCurrent)

/-- Every row is quiet for the range that the position was opened with. -/
def Quiet (checks : Bool) (input : DbBacktestInput K) (ticks : List PoolTickRow) : Prop :=
  ∀ tickLower tickUpper, input.tickBound checks input.priceLower = .ok tickLower →
    input.tickBound checks input.priceUpper = .ok tickUpper →
    ∀ seen t later, ticks = seen ++ t :: later → input.RowQuiet tickLower tickUpper seen t

/-- With equal decimals the bounds of a range are the aligned ticks of its prices. -/
theorem tickBound_aligned {input : DbBacktestInput ℝ} {price : ℝ}
    (raw : input.decimalsA = input.decimalsB) (spacing : 0 < input.tickSpacing)
    (fits : Machine.InRange 32 input.tickSpacing) (sized : FloatSized price) (checks : Bool) :
    input.tickBound checks price = .ok (alignedTick price input.tickSpacing) := by
  rw [tickBound, uiFactor, F64.uiFactor_real, raw, uiFactor_self, div_one]
  exact priceToTick_aligned spacing fits sized.lower sized.upper' checks

theorem rowQuiet_iff {input : DbBacktestInput K} (off : input.Off) {tickLower tickUpper : ℤ}
    {seen : List PoolTickRow} {t : PoolTickRow} : input.RowQuiet tickLower tickUpper seen t ↔
      ¬ Fires t.tickCurrent tickLower tickUpper (input.heldPnl seen t) input.rebalanceCfg := by
  simp only [RowQuiet, Fires, off.outOfRange, off.nearEdge, not_or, not_and, not_le]
  constructor
  · intro quiet
    refine ⟨fun given => absurd given Bool.false_ne_true, fun above => ?_⟩
    rcases quiet with below | between
    · exact absurd below above
    · exact between
  · intro holds
    by_cases below : input.heldPnl seen t < input.rebalanceCfg.minNetPnlUsd
    · exact Or.inl below
    · exact Or.inr (holds.2 below)

end DbBacktestInput

/-! ### The replay -/

namespace Replay

variable {input : DbBacktestInput K} {checks : Bool} {tickLower tickUpper : ℤ}

/-- A replay that has gone through `seen` without a rebalance. -/
structure LeftAlone (input : DbBacktestInput K) (tickLower tickUpper : ℤ) (seen : List PoolTickRow)
    (replay : Replay K) : Prop extends Paid input seen replay where
  lower : replay.tickLower = tickLower
  upper : replay.tickUpper = tickUpper
  segment : replay.segment = input.segment
  realized : replay.realizedIlUsd = 0

theorem dayBoundary_bounds (replay : Replay K) (dayDate : ℤ) :
    (replay.dayBoundary dayDate).tickLower = replay.tickLower ∧
      (replay.dayBoundary dayDate).tickUpper = replay.tickUpper := by
  by_cases same : dayDate = replay.currentDayDate
  · rw [dayBoundary_same same]
    exact ⟨rfl, rfl⟩
  · rw [dayBoundary_new same]
    exact ⟨rfl, rfl⟩

/-- A row is observed without moving the range. -/
theorem observe_bounds (replay : Replay K) (input : DbBacktestInput K) (i : ℕ) (t : PoolTickRow) :
    (replay.observe input i t).tickLower = replay.tickLower ∧
      (replay.observe input i t).tickUpper = replay.tickUpper :=
  dayBoundary_bounds replay (dateNaive t.time)

theorem observe_leftAlone {replay : Replay K} {seen : List PoolTickRow} (t : PoolTickRow)
    (left : LeftAlone input tickLower tickUpper seen replay) :
    LeftAlone input tickLower tickUpper (seen ++ [t]) (replay.observe input seen.length t) := by
  have valued := observe_valued input replay seen.length t
  obtain ⟨lower, upper⟩ := observe_bounds replay input seen.length t
  exact ⟨observe_paid t left.toPaid, lower.trans left.lower, upper.trans left.upper,
    valued.segment.trans left.segment, valued.realized.trans left.realized⟩

/-- A pass of the loop re-centres exactly if the signal fires on the row it has observed. -/
theorem step_fires {replay next : Replay K} {i : ℕ} {t : PoolTickRow}
    (returned : replay.step input checks i t = .ok next) :
    let observed := replay.observe input i t
    let fires := Fires t.tickCurrent observed.tickLower observed.tickUpper
      (observed.cumulativeFees + observed.realizedIlUsd + observed.lastUnrealizedIlUsd)
      input.rebalanceCfg
    (next = observed ∧ ¬ fires) ∨ (Recentered input checks observed next ∧ fires) := by
  obtain ⟨signal, decided, returned⟩ := (bind_ok_iff ..).mp returned
  cases signal with
  | hold reason =>
    cases returned
    exact Or.inl ⟨rfl, shouldRebalance_holds decided⟩
  | rebalance reason =>
    exact Or.inr ⟨recentered_of_recenter returned, shouldRebalance_fires decided⟩

/-- One more row leaves the position alone exactly if the signal does not fire on it. -/
theorem step_leftAlone {replay next : Replay K} {seen : List PoolTickRow} {t : PoolTickRow}
    (left : LeftAlone input tickLower tickUpper seen replay)
    (returned : replay.step input checks seen.length t = .ok next) :
    let fires := Fires t.tickCurrent tickLower tickUpper (input.heldPnl seen t) input.rebalanceCfg
    (¬ fires ∧ next.totalRebalances = replay.totalRebalances ∧
        LeftAlone input tickLower tickUpper (seen ++ [t]) next) ∨
      (fires ∧ next.totalRebalances ≠ 0) := by
  intro fires
  have observed := observe_leftAlone t left
  have valued := observe_valued input replay seen.length t
  -- the P&L at the signal is that of the position left alone
  have pnl : (replay.observe input seen.length t).cumulativeFees +
      (replay.observe input seen.length t).realizedIlUsd +
      (replay.observe input seen.length t).lastUnrealizedIlUsd = input.heldPnl seen t := by
    rw [observed.fees, observed.realized, valued.unrealized, left.segment]
    rfl
  have signal := step_fires returned
  simp only [pnl, observed.lower, observed.upper] at signal
  rcases signal with held | moved
  · left
    rw [held.1]
    exact ⟨held.2, valued.rebalances, observed⟩
  · right
    refine ⟨moved.2, ?_⟩
    rw [moved.1.moved]
    exact Nat.succ_ne_zero _

/-- Rebalances are counted up, never down. -/
theorem step_totalRebalances {replay next : Replay K} {i : ℕ} {t : PoolTickRow}
    (returned : replay.step input checks i t = .ok next) :
    replay.totalRebalances ≤ next.totalRebalances := by
  have valued := observe_valued input replay i t
  rcases step_cases returned with held | recentered
  · rw [held, valued.rebalances]
  · rw [recentered.moved, ← valued.rebalances]
    exact Nat.le_succ _

/-- The position is left alone as long as the signal fires on no row, and from the first row
on which it does there is a rebalance. -/
theorem loop_leftAlone {opened last : Replay K} {ticks : List PoolTickRow}
    (left : LeftAlone input tickLower tickUpper [] opened) (zero : opened.totalRebalances = 0)
    (returned : loop input checks 0 opened ticks = .ok last) :
    let still := ∀ seen t later, ticks = seen ++ t :: later →
      ¬ Fires t.tickCurrent tickLower tickUpper (input.heldPnl seen t) input.rebalanceCfg
    (last.totalRebalances = 0 ∧ LeftAlone input tickLower tickUpper ticks last ∧ still) ∨
      (last.totalRebalances ≠ 0 ∧ ¬ still) := by
  induction ticks using List.reverseRecOn generalizing last with
  | nil =>
    cases returned
    refine Or.inl ⟨zero, left, ?_⟩
    intro seen t later split
    exact absurd split (by simp)
  | append_singleton xs t ih =>
    intro still
    obtain ⟨mid, through, stepped⟩ := loop_concat.mp returned
    have each := Machine.forall_split_concat xs t (P := fun seen s =>
      ¬ Fires s.tickCurrent tickLower tickUpper (input.heldPnl seen s) input.rebalanceCfg)
    rcases ih through with ⟨none, alone, before⟩ | ⟨moved, fired⟩
    · rw [Nat.zero_add] at stepped
      rcases step_leftAlone alone stepped with ⟨here, same, alone⟩ | ⟨fires, moved⟩
      · exact Or.inl ⟨same.trans none, alone, each.mpr ⟨before, here⟩⟩
      · exact Or.inr ⟨moved, fun all => (each.mp all).2 fires⟩
    · have counted := step_totalRebalances stepped
      exact Or.inr ⟨by omega, fun all => fired (each.mp all).1⟩

theorem Opened.leftAlone {first : PoolTickRow} {opened : Replay K}
    (opening : Opened input checks first opened) :
    LeftAlone input opened.tickLower opened.tickUpper [] opened := by
  refine ⟨⟨opening.fees, ?_⟩, rfl, rfl, opening.segment, opening.realized⟩
  intro s last
  cases last

/-- The rows and the accumulators of a replay without a rebalance. -/
structure OpeningRows (input : DbBacktestInput K) (replay : Replay K) : Prop where
  segment : replay.segment = input.segment
  realized : replay.realizedIlUsd = 0
  unrealized :
    replay.lastUnrealizedIlUsd = input.segment.il replay.lastPrice * input.initialValueUsd
  rows : ∀ row ∈ replay.dayResults, row.ilUsd = 0 + input.segment.il row.price * input.initialValueUsd

theorem OpeningRows.dayRow {replay : Replay K} (opening : OpeningRows input replay) :
    replay.dayRow.ilUsd = 0 + input.segment.il replay.dayRow.price * input.initialValueUsd := by
  show replay.realizedIlUsd + replay.lastUnrealizedIlUsd = _
  rw [opening.realized, opening.unrealized]
  rfl

/-- What is pushed at a change of date is the row of the state before. -/
theorem step_openingRows {replay next : Replay K} {i : ℕ} {t : PoolTickRow}
    (segment : replay.segment = input.segment) (realized : replay.realizedIlUsd = 0)
    (rows : ∀ row ∈ replay.dayResults,
      row.ilUsd = 0 + input.segment.il row.price * input.initialValueUsd)
    (closing : dateNaive t.time = replay.currentDayDate ∨ OpeningRows input replay)
    (returned : replay.step input checks i t = .ok next) (zero : next.totalRebalances = 0) :
    OpeningRows input next := by
  have valued := observe_valued input replay i t
  have passed := observe_passed input replay i t
  rcases step_cases returned with held | recentered
  · rw [held]
    refine ⟨valued.segment.trans segment, valued.realized.trans realized, ?_, ?_⟩
    · rw [valued.unrealized, segment, passed.price]
    · by_cases same : dateNaive t.time = replay.currentDayDate
      · rw [(passed.sameDay same).1]
        exact rows
      · rw [(passed.newDay same).1]
        intro row member
        rcases List.mem_append.mp member with old | new
        · exact rows row old
        · rw [List.mem_singleton.mp new]
          exact (closing.resolve_left same).dayRow
  · rw [recentered.moved] at zero
    exact absurd zero (Nat.succ_ne_zero _)

theorem loop_openingRows {first : PoolTickRow} {ticks : List PoolTickRow} {opened last : Replay K}
    (start : Replay.start input checks first = .ok opened)
    (returned : loop input checks 0 opened (first :: ticks) = .ok last)
    (zero : last.totalRebalances = 0) : OpeningRows input last := by
  obtain ⟨next, stepped, rest⟩ := loop_cons.mp returned
  have opening := start_ok start
  -- the first row is on the day the replay starts with and closes none
  have first : next.totalRebalances = 0 → OpeningRows input next := by
    refine step_openingRows opening.segment opening.realized ?_ (Or.inl opening.date.symm) stepped
    intro row member
    rw [opening.rows] at member
    cases member
  refine loop_invariant (P := fun later => later.totalRebalances = 0 → OpeningRows input later)
    first ?_ rest zero
  intro i before t _ after held stepped none
  have counted := step_totalRebalances stepped
  have opening := held (by omega)
  exact step_openingRows opening.segment opening.realized opening.rows (Or.inr opening) stepped none

theorem finish_staysOff {last : Replay K} (opening : OpeningRows input last)
    (zero : last.totalRebalances = 0) :
    StaysOff input.segment input.initialValueUsd (last.finish input) := by
  refine ⟨zero, ?_, ?_⟩
  · intro row member
    rw [finish_days] at member
    rcases List.mem_append.mp member with old | new
    · exact opening.rows row old
    · rw [List.mem_singleton.mp new]
      exact opening.dayRow
  · rw [finish_days, List.getLast?_concat]
    exact opening.dayRow

end Replay

section Replayed

variable {checks : Bool} {input : DbBacktestInput K}

theorem staysOff_iff_quiet {ticks : List PoolTickRow} {result : BacktestResult K} (off : input.Off)
    (returned : runDbBacktest checks input ticks = .ok result) :
    StaysOff input.segment input.initialValueUsd result ↔ input.Quiet checks ticks := by
  cases ticks with
  | nil => cases returned
  | cons first ticks =>
    obtain ⟨opened, last, start, loop, finished⟩ := runDbBacktest_ok returned
    have opening := Replay.start_ok start
    rw [finished]
    -- either no row fires for the position as it was opened, or the first that does counts
    rcases Replay.loop_leftAlone opening.leftAlone opening.rebalances loop with
      ⟨none, _, still⟩ | ⟨some, fired⟩
    · constructor
      · intro _ tickLower tickUpper lower' upper' seen t later split
        rw [opening.lower] at lower'
        rw [opening.upper] at upper'
        cases lower'
        cases upper'
        exact (DbBacktestInput.rowQuiet_iff off).mpr (still seen t later split)
      · intro _
        exact Replay.finish_staysOff (Replay.loop_openingRows start loop none) none
    · constructor
      · intro stays
        exact absurd stays.rebalances some
      · intro quiet
        refine absurd ?_ fired
        intro seen t later split
        exact (DbBacktestInput.rowQuiet_iff off).mp
          (quiet _ _ opening.lower opening.upper seen t later split)

end Replayed

/-! ### The GBM engine -/

namespace Gbm

variable {params : BacktestParams K} {checks : Bool}

/-- The state and the rows of a run that never re-centres. -/
structure Unmoved (params : BacktestParams K) (gbm : Gbm K) : Prop where
  segment : gbm.segment = params.segment
  realized : gbm.realizedIlUsd = 0
  rebalances : gbm.totalRebalances = 0
  rows : ∀ row ∈ gbm.dayResults, row.ilUsd = 0 + params.segment.il row.price * params.initialValueUsd

theorem step_unmoved (off : params.strategyRebalance = false) {gbm next : Gbm K} {day : ℕ}
    {drawn : K} (unmoved : Unmoved params gbm)
    (returned : gbm.step params checks day drawn = .ok next) : Unmoved params next := by
  have rows := step_rows returned
  have made : ∀ row ∈ next.dayResults,
      row.ilUsd = 0 + params.segment.il row.price * params.initialValueUsd := by
    intro row member
    rw [rows] at member
    rcases List.mem_append.mp member with old | new
    · exact unmoved.rows row old
    · rw [List.mem_singleton.mp new, ← unmoved.segment]
      show gbm.realizedIlUsd + gbm.segment.il (max drawn 1e-6) * params.initialValueUsd = _
      rw [unmoved.realized]
      rfl
  obtain ⟨rested, decided, ends⟩ := step_ok returned
  rcases rebalanceDay_cases decided with held | moved
  · rw [ends, held.1] at made ⊢
    exact ⟨unmoved.segment, unmoved.realized, unmoved.rebalances, made⟩
  · rw [off] at moved
    exact absurd moved.2.1 Bool.false_ne_true

theorem run_staysOff (off : params.strategyRebalance = false) {path : ℕ → K}
    {result : BacktestResult K} (returned : run checks params path = .ok result) :
    StaysOff params.segment params.initialValueUsd result := by
  obtain ⟨last, through, finished⟩ := run_ok.mp returned
  have unmoved : Unmoved params last := by
    refine Machine.loop_invariant (P := Unmoved params) ⟨rfl, rfl, rfl, ?_⟩ ?_ through
    · intro row member
      cases member
    · intro day gbm drawn _ next held stepped
      exact step_unmoved off held stepped
  rw [finished]
  refine ⟨unmoved.rebalances, unmoved.rows, ?_⟩
  cases ends : last.dayResults.getLast? with
  | none => simp only [finish, ends, Option.map_none]
  | some row =>
    simp only [finish, ends, Option.map_some, Option.getD_some]
    exact unmoved.rows row (List.mem_of_getLast? ends)

end Gbm

/-- A range that starts at the entry price, as the command line would set it up. -/
noncomputable def atBoundInput : DbBacktestInput ℝ :=
  ⟨1, 1, 1, 2, 1, 1, 1, 0, 0, ⟨false, 0, 0⟩, 0.95, 1.05⟩

end TickLiq
