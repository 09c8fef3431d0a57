import TickLiq.Backtest.DayRows
import TickLiq.Backtest.Gbm

/-!
# Segments and marks

A rebalance closes a segment, entry and range, and opens the next one at the current
price. The marks of a run say which of its rows or days rebalance.
-/
namespace TickLiq

open Machine (marks)

variable {K : Type} [F64 K]

/-- A stretch of a position between two rebalances. -/
structure Segment (K : Type) where
  entryPrice : K
  priceLower : K
  priceUpper : K

def Segment.il (segment : Segment K) (price : K) : K :=
  F64.computeIl segment.entryPrice price segment.priceLower segment.priceUpper

/-! ### The replay -/

namespace DbBacktestInput

def segment (input : DbBacktestInput K) : Segment K :=
  ⟨input.entryPrice, input.priceLower, input.priceUpper⟩

/-- The segment that a rebalance opens. -/
def recentred (input : DbBacktestInput K) (_ : Segment K) (price : K) : Segment K :=
  ⟨price, max (price * input.rangeFactorLower) 1e-9, price * input.rangeFactorUpper⟩

end DbBacktestInput

namespace Replay

def segment (replay : Replay K) : Segment K :=
  ⟨replay.curEntryPrice, replay.curPriceLower, replay.curPriceUpper⟩

def rebalanced (before after : Replay K) : Bool :=
  decide (after.totalRebalances ≠ before.totalRebalances)

variable {input : DbBacktestInput K} {checks : Bool}

/-- Observing a row values the open segment at its price and books nothing else. -/
structure Valued (input : DbBacktestInput K) (replay observed : Replay K) (price : K) : Prop where
  segment : observed.segment = replay.segment
  realized : observed.realizedIlUsd = replay.realizedIlUsd
  unrealized : observed.lastUnrealizedIlUsd = replay.segment.il price * input.initialValueUsd
  rebalances : observed.totalRebalances = replay.totalRebalances

theorem observe_valued (input : DbBacktestInput K) (replay : Replay K) (i : ℕ) (t : PoolTickRow) :
    Valued input replay (replay.observe input i t) (input.uiPrice t) := by
  by_cases same : dateNaive t.time = replay.currentDayDate
  · simp only [observe, dayBoundary_same same]
    exact ⟨rfl, rfl, rfl, rfl⟩
  · simp only [observe, dayBoundary_new same]
    exact ⟨rfl, rfl, rfl, rfl⟩

theorem Opened.segment {first : PoolTickRow} {opened : Replay K}
    (opening : Opened input checks first opened) : opened.segment = input.segment := by
  simp only [Replay.segment, DbBacktestInput.segment, opening.entryPrice, opening.priceLower,
    opening.priceUpper]

end Replay

/-- Which rows of the stream rebalance the position. -/
def rebalances (checks : Bool) (input : DbBacktestInput K) :
    List PoolTickRow → List Bool
  | [] => []
  | first :: ticks =>
    match Replay.start input checks first with
    | .ok opened => marks (Replay.pass input checks) Replay.rebalanced 0 opened (first :: ticks)
    | .error _ => []

/-- The prices of the stream with the rows that rebalance. -/
def priceStream (checks : Bool) (input : DbBacktestInput K)
    (ticks : List PoolTickRow) : List (K × Bool) :=
  (ticks.map input.uiPrice).zip (rebalances checks input ticks)

section Replayed

variable {checks : Bool} {input : DbBacktestInput K}

/-- The marks of a prefix are the first marks of the stream. -/
theorem priceStream_prefix {xs : List PoolTickRow} (ys : List PoolTickRow) {early : BacktestResult K}
    (before : runDbBacktest checks input xs = .ok early) :
    priceStream checks input xs = (priceStream checks input (xs ++ ys)).take xs.length := by
  cases xs with
  | nil => cases before
  | cons first xs =>
    obtain ⟨opened, mid, start, through, _⟩ := runDbBacktest_ok before
    rw [Replay.loop_eq] at through
    have split : rebalances checks input (first :: xs ++ ys) =
        rebalances checks input (first :: xs) ++
          marks (Replay.pass input checks) Replay.rebalanced (0 + (first :: xs).length) mid ys := by
      simp only [List.cons_append, rebalances, start]
      exact Machine.marks_append through
    have length : (rebalances checks input (first :: xs)).length = (first :: xs).length := by
      simp only [rebalances, start]
      exact Machine.marks_length through
    have whole : (priceStream checks input (first :: xs)).length = (first :: xs).length := by
      rw [priceStream, List.length_zip, length, List.length_map, min_self]
    rw [priceStream, priceStream, split, List.map_append,
      List.zip_append (by rw [length, List.length_map]), ← priceStream,
      List.take_append_of_le_length whole.ge, List.take_of_length_le whole.le]

theorem dateRuns_take (ticks : List PoolTickRow) (n : ℕ) :
    dateRuns ((dateRuns ticks).take n).flatten = (dateRuns ticks).take n := by
  obtain ⟨_, listed, within, apart⟩ := List.splitBy_eq_iff.mp (rfl : dateRuns ticks = _)
  apply List.splitBy_eq_iff.mpr
  refine ⟨rfl, ?_, ?_, apart.take n⟩
  · exact fun member => listed (List.mem_of_mem_take member)
  · exact fun run member => within run (List.mem_of_mem_take member)

/-- The rows up to the end of the day of number `k + 1`. -/
def throughDay (ticks : List PoolTickRow) (k : ℕ) : List PoolTickRow :=
  ((dateRuns ticks).take (k + 1)).flatten

/-- The stream splits behind each of its days, at a change of date. -/
theorem throughDay_split {ticks : List PoolTickRow} {k : ℕ} (below : k < (dateRuns ticks).length) :
    ∃ (listed : throughDay ticks k ≠ []) (ys : List PoolTickRow),
      ticks = throughDay ticks k ++ ys ∧ ∀ ysListed : ys ≠ [],
        dateNaive ((throughDay ticks k).getLast listed).time ≠
          dateNaive (ys.head ysListed).time := by
  obtain ⟨flat, nonempty, _, apart⟩ := List.splitBy_eq_iff.mp (rfl : dateRuns ticks = _)
  have run := List.getElem_mem below
  have runListed : (dateRuns ticks)[k] ≠ [] := fun empty => nonempty (empty ▸ run)
  have ends : throughDay ticks k = ((dateRuns ticks).take k).flatten ++ (dateRuns ticks)[k] := by
    rw [throughDay, List.take_succ_eq_append_getElem below, List.flatten_append]
    simp
  have listed : throughDay ticks k ≠ [] := by
    rw [ends]
    exact List.append_ne_nil_of_right_ne_nil _ runListed
  refine ⟨listed, ((dateRuns ticks).drop (k + 1)).flatten, ?_, ?_⟩
  · rw [throughDay, ← List.flatten_append, List.take_append_drop]
    exact flat
  · intro ysListed
    rw [← List.take_append_drop (k + 1) (dateRuns ticks)] at apart
    -- neighbouring runs differ at the rows where they meet
    have between := (List.isChain_append.mp apart).2.2 (dateRuns ticks)[k]
      (by rw [List.take_succ_eq_append_getElem below, List.getLast?_concat]; rfl)
    generalize (dateRuns ticks).drop (k + 1) = later at between ysListed
    cases later with
    | nil => exact absurd rfl ysListed
    | cons next more =>
      obtain ⟨_, nextListed, differ⟩ := between next rfl
      have first : ((next :: more).flatten).head ysListed = next.head nextListed := by
        simp only [List.flatten_cons, List.head_append_of_ne_nil nextListed]
      have last : (throughDay ticks k).getLast listed = (dateRuns ticks)[k].getLast runListed := by
        simp only [ends, List.getLast_append_of_ne_nil _ runListed]
      rw [first, last]
      exact beq_eq_false_iff_ne.mp differ

end Replayed

/-! ### The GBM engine -/

namespace BacktestParams

def segment (params : BacktestParams K) : Segment K :=
  ⟨params.entryPrice, params.priceLower, params.priceUpper⟩

/-- The segment that a rebalance opens: the width of the one it closes, around the price. -/
def recentred (_ : BacktestParams K) (segment : Segment K) (price : K) : Segment K :=
  let halfWidth := (segment.priceUpper - segment.priceLower) / (2 : ℕ)
  ⟨price, max (price - halfWidth) 1e-6, price + halfWidth⟩

end BacktestParams

namespace Gbm

def segment (gbm : Gbm K) : Segment K := ⟨gbm.entryPrice, gbm.priceLower, gbm.priceUpper⟩

def rebalanced (before after : Gbm K) : Bool :=
  decide (after.totalRebalances ≠ before.totalRebalances)

/-- The prices of the days, behind the guard. -/
def prices (params : BacktestParams K) (path : ℕ → K) : List K :=
  (drawn params path).map fun price => max price 1e-6

/-- On which days the position is rebalanced. -/
def rebalances (checks : Bool) (params : BacktestParams K) (path : ℕ → K) : List Bool :=
  marks (fun day gbm drawn => step gbm params checks day drawn) rebalanced 1 (start params)
    (drawn params path)

/-- The prices of the days with the days that rebalance. -/
def priceStream (checks : Bool) (params : BacktestParams K) (path : ℕ → K) :
    List (K × Bool) :=
  (prices params path).zip (rebalances checks params path)

variable {params : BacktestParams K} {checks : Bool}

/-- A rebalance leaves the rows alone, so a day adds its own row and no other. -/
theorem step_rows {gbm next : Gbm K} {day : ℕ} {drawn : K}
    (returned : gbm.step params checks day drawn = .ok next) : next.dayResults =
      gbm.dayResults ++
        [(gbm.accrue params (max drawn 1e-6)).dayRow params day (max drawn 1e-6)] := by
  obtain ⟨rested, decided, made⟩ := step_ok returned
  rw [made]
  rcases rebalanceDay_cases decided with held | moved
  · rw [held.1]
    rfl
  · rw [moved.1]
    rfl

/-- A run marks its rebalances, one flag a day. -/
theorem run_marks {path : ℕ → K} {result : BacktestResult K}
    (returned : run checks params path = .ok result) :
    (rebalances checks params path).length = params.days ∧
      (rebalances checks params path).count true = result.totalRebalances := by
  obtain ⟨last, through, finished⟩ := run_ok.mp returned
  have length : (rebalances checks params path).length = (drawn params path).length := by
    rw [rebalances, Machine.marks_length through]
  have counted : last.totalRebalances =
      (((drawn params path).zip (rebalances checks params path)).map Prod.snd).count true := by
    refine Machine.loop_history rebalanced
      -- a day is marked if it raises the counter
      (P := fun seen gbm => gbm.totalRebalances = (seen.map Prod.snd).count true) rfl ?_ through
    intro seen before day _ after held stepped
    obtain ⟨rested, decided, made⟩ := step_ok stepped
    rw [List.map_append, List.count_append, ← held]
    rcases rebalanceDay_cases decided with kept | moved
    · have mark : before.rebalanced after = false := by
        rw [made, kept.1]
        exact decide_eq_false (not_not_intro rfl)
      rw [mark, made, kept.1]
      rfl
    · have mark : before.rebalanced after = true := by
        rw [made, moved.1]
        exact decide_eq_true (Nat.succ_ne_self _)
      rw [mark, made, moved.1]
      rfl
  rw [List.map_snd_zip (by rw [length])] at counted
  refine ⟨length.trans ?_, ?_⟩
  · rw [drawn, List.length_map, List.length_range']
  · rw [finished]
    exact counted.symm

end Gbm

end TickLiq
