import TickLiq.Backtest.Marks
import TickLiq.Machine.Segments

/-!
# Realized and unrealized loss

A rebalance closes a segment, entry and range, and opens the next one at the current
price. In both engines the loss of every row is that of the segments closed so far,
each at its closing price, and of the open one: a rebalance moves its segment's loss
from one accumulator to the other.
-/
namespace TickLiq

open Machine (marks openSegment openAmount closedAmount totalAmount)

/-! ### The replay -/

namespace DbBacktestInput

/-- The loss that the rows with these prices and rebalances leave in the books. -/
noncomputable def ilBySegments (input : DbBacktestInput ℝ) (stream : List (ℝ × Bool)) : ℝ :=
  input.initialValueUsd * totalAmount input.recentred Segment.il input.segment stream

end DbBacktestInput

namespace Replay

/-- The accumulators after rows with these prices and rebalances. -/
structure Books (input : DbBacktestInput ℝ) (seen : List (ℝ × Bool)) (replay : Replay ℝ) : Prop where
  segment : replay.segment = openSegment input.recentred input.segment seen
  realized : replay.realizedIlUsd =
    input.initialValueUsd * closedAmount input.recentred Segment.il input.segment seen
  unrealized : replay.lastUnrealizedIlUsd =
    input.initialValueUsd * openAmount input.recentred Segment.il input.segment seen
  rebalances : replay.totalRebalances = (seen.map Prod.snd).count true

variable {input : DbBacktestInput ℝ} {checks : Bool}

theorem step_books {replay next : Replay ℝ} {i : ℕ} {t : PoolTickRow} {seen : List (ℝ × Bool)}
    (books : Books input seen replay) (returned : replay.step input checks i t = .ok next) :
    Books input (seen ++ [(input.uiPrice t, replay.rebalanced next)]) next := by
  have valued := observe_valued input replay i t
  rcases step_cases returned with held | recentered
  · have mark : replay.rebalanced next = false := by
      rw [held]
      exact decide_eq_false (not_not_intro valued.rebalances)
    rw [mark, held]
    constructor
    · rw [valued.segment, books.segment, Machine.openSegment_false]
    · rw [valued.realized, books.realized, Machine.closedAmount_false]
    · rw [valued.unrealized, books.segment, Machine.openAmount_false, mul_comm]
    · rw [valued.rebalances, books.rebalances]
      simp
  · have mark : replay.rebalanced next = true := by
      rw [recentered.moved]
      apply decide_eq_true
      rw [valued.rebalances]
      exact Nat.succ_ne_self _
    rw [mark, recentered.moved]
    constructor
    · rw [Machine.openSegment_true]
      rfl
    · -- the unrealized loss of the closing segment becomes realized
      rw [Machine.closedAmount_true, mul_add, ← books.realized, ← books.segment, ← valued.realized,
        mul_comm input.initialValueUsd, ← valued.unrealized]
    · rw [Machine.openAmount_true, mul_zero]
    · rw [valued.rebalances, books.rebalances]
      simp

theorem start_books {first : PoolTickRow} {opened : Replay ℝ}
    (start : Replay.start input checks first = .ok opened) : Books input [] opened := by
  have opening := start_ok start
  exact ⟨opening.segment, opening.realized.trans (mul_zero _).symm,
    opening.unrealized.trans (mul_zero _).symm, opening.rebalances⟩

end Replay

section Replayed

variable {checks : Bool} {input : DbBacktestInput ℝ}

theorem priceStream_books {first : PoolTickRow} {ticks : List PoolTickRow} {opened last : Replay ℝ}
    (start : Replay.start input checks first = .ok opened)
    (loop : Replay.loop input checks 0 opened (first :: ticks) = .ok last) :
    (rebalances checks input (first :: ticks)).length = (first :: ticks).length ∧
      Replay.Books input (priceStream checks input (first :: ticks)) last := by
  rw [Replay.loop_eq] at loop
  have books := Machine.loop_history Replay.rebalanced
    (P := fun seen => Replay.Books input (seen.map (Prod.map input.uiPrice id)))
    (Replay.start_books start)
    (by
      intro seen u t _ v held stepped
      rw [List.map_append]
      exact Replay.step_books held stepped) loop
  have made : rebalances checks input (first :: ticks) =
      marks (Replay.pass input checks) Replay.rebalanced 0 opened (first :: ticks) := by
    simp only [rebalances, start]
  rw [priceStream, made, List.zip_map_left]
  exact ⟨Machine.marks_length loop, books⟩

theorem totalIl_by_segments {ticks : List PoolTickRow} {result : BacktestResult ℝ}
    (returned : runDbBacktest checks input ticks = .ok result) :
    (rebalances checks input ticks).length = ticks.length ∧
      (rebalances checks input ticks).count true = result.totalRebalances ∧
      result.totalIlUsd = input.ilBySegments (priceStream checks input ticks) := by
  cases ticks with
  | nil => cases returned
  | cons first ticks =>
    obtain ⟨opened, last, start, loop, finished⟩ := runDbBacktest_ok returned
    obtain ⟨length, books⟩ := priceStream_books start loop
    refine ⟨length, ?_, ?_⟩
    · have marks : (priceStream checks input (first :: ticks)).map Prod.snd =
          rebalances checks input (first :: ticks) :=
        List.map_snd_zip (by rw [length, List.length_map])
      rw [finished, ← marks]
      exact books.rebalances.symm
    · rw [finished, DbBacktestInput.ilBySegments, Machine.totalAmount, mul_add, ← books.realized,
        ← books.unrealized]
      rfl

theorem rowIl_by_segments {ticks : List PoolTickRow} {result : BacktestResult ℝ} {k : ℕ}
    {row : DayResult ℝ} (returned : runDbBacktest checks input ticks = .ok result)
    (found : result.days[k]? = some row) : row.ilUsd =
      input.ilBySegments ((priceStream checks input ticks).take (throughDay ticks k).length) := by
  have below : k < (dateRuns ticks).length := by
    rw [← days_length returned]
    exact (List.getElem?_eq_some_iff.mp found).1
  obtain ⟨listed, ys, split, differ⟩ := throughDay_split below
  -- the row is the last one of the replay that stops after its day
  have early : ∃ early, runDbBacktest checks input (throughDay ticks k) = .ok early ∧
      early.days <+: result.days := by
    by_cases ysListed : ys = []
    · rw [ysListed, List.append_nil] at split
      exact ⟨result, split ▸ returned, List.prefix_refl _⟩
    · rw [split] at returned
      exact days_prefix listed ysListed (differ ysListed) returned
  obtain ⟨early, before, kept⟩ := early
  have total := (totalIl_by_segments before).2.2
  have stream := priceStream_prefix ys before
  rw [← split] at stream
  rw [← stream, ← total]
  have count : early.days.length = k + 1 := by
    rw [days_length before, throughDay, dateRuns_take, List.length_take_of_le below]
  obtain ⟨last, ends, _, il, _⟩ := totals_of_last_row before
  obtain ⟨later, whole⟩ := kept
  rw [← whole, List.getElem?_append_left (by omega)] at found
  rw [List.getLast?_eq_getElem?, count, Nat.add_sub_cancel, found] at ends
  cases ends
  exact il

end Replayed

/-! ### The GBM engine -/

namespace BacktestParams

noncomputable def ilBySegments (params : BacktestParams ℝ) (stream : List (ℝ × Bool)) : ℝ :=
  params.initialValueUsd * totalAmount params.recentred Segment.il params.segment stream

end BacktestParams

namespace Gbm

/-- The accumulators and the rows after days with these prices and rebalances. -/
structure Books (params : BacktestParams ℝ) (seen : List (ℝ × Bool)) (gbm : Gbm ℝ) : Prop where
  segment : gbm.segment = openSegment params.recentred params.segment seen
  realized : gbm.realizedIlUsd =
    params.initialValueUsd * closedAmount params.recentred Segment.il params.segment seen
  rebalances : gbm.totalRebalances = (seen.map Prod.snd).count true
  rows : gbm.dayResults.length = seen.length
  il : ∀ k row, gbm.dayResults[k]? = some row → row.ilUsd = params.ilBySegments (seen.take (k + 1))

variable {params : BacktestParams ℝ} {checks : Bool}

theorem start_books : Books params [] (start params) := by
  refine ⟨rfl, (mul_zero _).symm, rfl, rfl, ?_⟩
  intro k row found
  cases found

/-- The row of a day values the segment that is open before its rebalance. -/
theorem dayRow_il {gbm : Gbm ℝ} {seen : List (ℝ × Bool)} (books : Books params seen gbm) (day : ℕ)
    (price : ℝ) (closes : Bool) : ((gbm.accrue params price).dayRow params day price).ilUsd =
      params.ilBySegments (seen ++ [(price, closes)]) := by
  rw [BacktestParams.ilBySegments, Machine.totalAmount_concat, mul_add, ← books.realized,
    ← books.segment, mul_comm params.initialValueUsd]
  rfl

/-- Each day's row carries the loss by segments of the days up to it. -/
theorem step_il {gbm next : Gbm ℝ} {day : ℕ} {drawn : ℝ} {seen : List (ℝ × Bool)}
    (books : Books params seen gbm) (returned : gbm.step params checks day drawn = .ok next) (k : ℕ)
    (row : DayResult ℝ) (found : next.dayResults[k]? = some row) : row.ilUsd =
      params.ilBySegments ((seen ++ [(max drawn 1e-6, gbm.rebalanced next)]).take (k + 1)) := by
  rw [step_rows returned] at found
  rcases Nat.lt_or_ge k gbm.dayResults.length with old | new
  · rw [List.getElem?_append_left old] at found
    rw [List.take_append_of_le_length (by rw [← books.rows]; exact old)]
    exact books.il k row found
  · -- the only row that is not an old one
    have here : k = gbm.dayResults.length := by
      have bound := (List.getElem?_eq_some_iff.mp found).1
      rw [List.length_append, List.length_singleton] at bound
      omega
    rw [here, List.getElem?_concat_length] at found
    cases found
    rw [List.take_of_length_le (by rw [List.length_append, List.length_singleton, here, books.rows])]
    exact dayRow_il books day _ _

theorem step_books {gbm next : Gbm ℝ} {day : ℕ} {drawn : ℝ} {seen : List (ℝ × Bool)}
    (books : Books params seen gbm) (returned : gbm.step params checks day drawn = .ok next) :
    Books params (seen ++ [(max drawn 1e-6, gbm.rebalanced next)]) next := by
  have il := step_il books returned
  have count : next.dayResults.length =
      (seen ++ [(max drawn 1e-6, gbm.rebalanced next)]).length := by
    rw [step_rows returned, List.length_append, List.length_append, books.rows]
    rfl
  obtain ⟨rested, decided, made⟩ := step_ok returned
  -- a day that rebalances closes its segment, any other leaves it open
  rcases rebalanceDay_cases decided with held | moved
  · have mark : gbm.rebalanced next = false := by
      rw [made, held.1]
      exact decide_eq_false (not_not_intro rfl)
    rw [mark] at il count ⊢
    refine ⟨?_, ?_, ?_, count, il⟩ <;> rw [made, held.1]
    · rw [Machine.openSegment_false, ← books.segment]
      rfl
    · rw [Machine.closedAmount_false, ← books.realized]
      rfl
    · simp [accrue, books.rebalances]
  · have mark : gbm.rebalanced next = true := by
      rw [made, moved.1]
      exact decide_eq_true (Nat.succ_ne_self _)
    rw [mark] at il count ⊢
    refine ⟨?_, ?_, ?_, count, il⟩ <;> rw [made, moved.1]
    · rw [Machine.openSegment_true, ← books.segment]
      rfl
    · rw [Machine.closedAmount_true, mul_add, ← books.realized, ← books.segment,
        mul_comm params.initialValueUsd]
      rfl
    · simp [accrue, recenter, books.rebalances]

theorem run_books {path : ℕ → ℝ} {last : Gbm ℝ}
    (through : loop params checks 1 (start params) (drawn params path) = .ok last) :
    (rebalances checks params path).length = params.days ∧
      Books params (priceStream checks params path) last := by
  have books := Machine.loop_history rebalanced
    (P := fun seen => Books params (seen.map (Prod.map (fun price => max price 1e-6) id)))
    start_books
    (by
      intro seen u price _ v held stepped
      rw [List.map_append]
      exact step_books held stepped) through
  rw [priceStream, prices, List.zip_map_left]
  refine ⟨?_, books⟩
  rw [rebalances, Machine.marks_length through, drawn, List.length_map, List.length_range']

theorem run_by_segments {path : ℕ → ℝ} {result : BacktestResult ℝ}
    (returned : run checks params path = .ok result) :
    (rebalances checks params path).length = params.days ∧
      (rebalances checks params path).count true = result.totalRebalances ∧
      result.totalIlUsd = params.ilBySegments (priceStream checks params path) ∧
      result.days.length = params.days ∧
      ∀ k row, result.days[k]? = some row →
        row.ilUsd = params.ilBySegments ((priceStream checks params path).take (k + 1)) := by
  obtain ⟨last, through, finished⟩ := run_ok.mp returned
  obtain ⟨length, books⟩ := run_books through
  have prices : (prices params path).length = params.days := by
    rw [Gbm.prices, drawn, List.length_map, List.length_map, List.length_range']
  have whole : (priceStream checks params path).length = params.days := by
    rw [priceStream, List.length_zip, length, prices, min_self]
  have marks : (priceStream checks params path).map Prod.snd = rebalances checks params path :=
    List.map_snd_zip (by rw [length, prices])
  have total : result.totalIlUsd = params.ilBySegments (priceStream checks params path) := by
    rw [finished]
    cases ends : last.dayResults.getLast? with
    | none =>
      -- no days: no row and no segment that was closed or valued
      have empty : priceStream checks params path = [] := by
        apply List.eq_nil_of_length_eq_zero
        rw [← books.rows, List.getLast?_eq_none_iff.mp ends]
        rfl
      rw [empty, BacktestParams.ilBySegments, Machine.totalAmount_nil, mul_zero]
      simp only [finish, ends]
      rfl
    | some row =>
      simp only [finish, ends, Option.map_some, Option.getD_some]
      rw [List.getLast?_eq_getElem?] at ends
      have bound := (List.getElem?_eq_some_iff.mp ends).1
      rw [books.il _ row ends, Nat.sub_add_cancel (by omega), List.take_of_length_le books.rows.ge]
  refine ⟨length, ?_, total, ?_, ?_⟩
  · rw [finished, ← marks]
    exact books.rebalances.symm
  · rw [finished, ← whole]
    exact books.rows
  · rw [finished]
    exact books.il

end Gbm

/-- Realized loss is neither lost nor counted twice: in both engines every row and the total
report the loss of the segments closed so far, each at the price that closed it, and of the
open segment. The marks say where the run rebalanced. -/
theorem il_decomposes :
    (∀ checks input ticks result, runDbBacktest checks input ticks = .ok result →
      (rebalances checks input ticks).length = ticks.length ∧
      (rebalances checks input ticks).count true = result.totalRebalances ∧
      result.totalIlUsd = input.ilBySegments (priceStream checks input ticks) ∧
      result.days.length = (dateRuns ticks).length ∧
      ∀ k row, result.days[k]? = some row → row.ilUsd =
        input.ilBySegments ((priceStream checks input ticks).take (throughDay ticks k).length)) ∧
    (∀ checks params path result, Gbm.run checks params path = .ok result →
      (Gbm.rebalances checks params path).length = params.days ∧
      (Gbm.rebalances checks params path).count true = result.totalRebalances ∧
      result.totalIlUsd = params.ilBySegments (Gbm.priceStream checks params path) ∧
      result.days.length = params.days ∧
      ∀ k row, result.days[k]? = some row → row.ilUsd =
        params.ilBySegments ((Gbm.priceStream checks params path).take (k + 1))) := by
  constructor
  · intro checks input ticks result returned
    obtain ⟨length, count, total⟩ := totalIl_by_segments returned
    exact ⟨length, count, total, days_length returned,
      fun k row found => rowIl_by_segments returned found⟩
  · intro checks params path result returned
    exact Gbm.run_by_segments returned

theorem il_decomposes_sample :
    (∃ result, runDbBacktest false sampleInput [midnightRow 0, midnightRow 1] = .ok result ∧
      result.totalIlUsd = sampleInput.ilBySegments
        (priceStream false sampleInput [midnightRow 0, midnightRow 1])) ∧
    (∃ result, Gbm.run false sampleParams (fun day => day) = .ok result ∧
      result.totalIlUsd =
        sampleParams.ilBySegments (Gbm.priceStream false sampleParams fun day => day)) := by
  obtain ⟨replays, runs⟩ := il_decomposes
  constructor
  · obtain ⟨result, returned⟩ := runDbBacktest_unchecked (show 0 < sampleInput.tickSpacing by decide)
      (List.cons_ne_nil (midnightRow 0) [midnightRow 1])
    obtain ⟨_, _, total, _⟩ := replays false sampleInput _ result returned
    exact ⟨result, returned, total⟩
  · obtain ⟨result, returned⟩ := Gbm.run_unchecked (show 0 < sampleParams.tickSpacing by decide)
      fun day => day
    obtain ⟨_, _, total, _⟩ := runs false sampleParams _ result returned
    exact ⟨result, returned, total⟩

end TickLiq
