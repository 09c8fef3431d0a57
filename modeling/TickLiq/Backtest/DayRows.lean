import Mathlib.Data.List.SplitBy
import TickLiq.Backtest.RoundTrip
import TickLiq.Machine.Loop

/-!
# The day rows of the replay

A day row is pushed in two places, at a change of date and after the loop. Both push
the row of the state they meet, so what the replay of a prefix reports stays in the
report of the whole stream wherever the date changes.
-/
namespace TickLiq

open Machine (Panic bind_ok_iff)

variable {K : Type} [F64 K]

namespace Replay

variable {input : DbBacktestInput K} {checks : Bool}

/-- The row that closing the current day pushes. -/
def dayRow (replay : Replay K) : DayResult K :=
  let ilToDate := replay.realizedIlUsd + replay.lastUnrealizedIlUsd
  { day := replay.currentDayNum + 1
    price := replay.lastPrice
    inRange := replay.dayWasInRange
    cumulativeFeesUsd := replay.cumulativeFees
    ilUsd := ilToDate
    netPnlUsd := replay.cumulativeFees + ilToDate }

theorem finish_days (replay : Replay K) :
    (replay.finish input).days = replay.dayResults ++ [replay.dayRow] := rfl

theorem dayBoundary_same {replay : Replay K} {dayDate : ℤ} (same : dayDate = replay.currentDayDate) :
    replay.dayBoundary dayDate = replay := if_neg (not_not_intro same)

theorem dayBoundary_new {replay : Replay K} {dayDate : ℤ} (new : dayDate ≠ replay.currentDayDate) :
    replay.dayBoundary dayDate = { replay with
      daysInRange := if replay.dayWasInRange then replay.daysInRange + 1 else replay.daysInRange
      currentDayNum := replay.currentDayNum + 1
      dayResults := replay.dayResults ++ [replay.dayRow]
      currentDayDate := dayDate
      dayWasInRange := false } := if_pos new

theorem dayBoundary_date (replay : Replay K) (dayDate : ℤ) :
    (replay.dayBoundary dayDate).currentDayDate = dayDate := by
  by_cases same : dayDate = replay.currentDayDate
  · rw [dayBoundary_same same, same]
  · rw [dayBoundary_new same]

/-- What a pass of the loop does to the rows and the day it is on. -/
structure Passed (input : DbBacktestInput K) (replay next : Replay K) (t : PoolTickRow) : Prop where
  sameDay : dateNaive t.time = replay.currentDayDate →
    next.dayResults = replay.dayResults ∧ next.currentDayNum = replay.currentDayNum
  newDay : dateNaive t.time ≠ replay.currentDayDate →
    next.dayResults = replay.dayResults ++ [replay.dayRow] ∧
      next.currentDayNum = replay.currentDayNum + 1
  date : next.currentDayDate = dateNaive t.time
  price : next.lastPrice = input.uiPrice t

theorem observe_passed (input : DbBacktestInput K) (replay : Replay K) (i : ℕ) (t : PoolTickRow) :
    Passed input replay (replay.observe input i t) t := by
  refine ⟨?_, ?_, ?_, rfl⟩
  · intro same
    simp only [observe, accrue, dayBoundary_same same, and_self]
  · intro different
    simp only [observe, accrue, dayBoundary_new different, and_self]
  · exact dayBoundary_date replay _

/-- Re-centring touches neither the rows nor the day. -/
theorem step_passed {replay next : Replay K} {i : ℕ} {t : PoolTickRow}
    (returned : replay.step input checks i t = .ok next) : Passed input replay next t := by
  have observed := observe_passed input replay i t
  rcases step_cases returned with held | recentered
  · rw [held]
    exact observed
  · rw [recentered.moved]
    exact ⟨observed.sameDay, observed.newDay, observed.date, observed.price⟩

/-- The body of the loop as a step of `Machine.loop`. -/
def pass (input : DbBacktestInput K) (checks : Bool) (i : ℕ) (replay : Replay K)
    (t : PoolTickRow) : Except Panic (Replay K) :=
  replay.step input checks i t

theorem loop_eq (i : ℕ) (replay : Replay K) (ticks : List PoolTickRow) :
    loop input checks i replay ticks = Machine.loop (pass input checks) i replay ticks := by
  induction ticks generalizing i replay with
  | nil => rfl
  | cons t ticks ih => simp only [loop, Machine.loop, ih, pass]

theorem loop_cons {i : ℕ} {replay last : Replay K} {t : PoolTickRow} {ticks : List PoolTickRow} :
    loop input checks i replay (t :: ticks) = .ok last ↔ ∃ next,
      replay.step input checks i t = .ok next ∧ loop input checks (i + 1) next ticks = .ok last :=
  bind_ok_iff ..

theorem loop_append {i : ℕ} {replay last : Replay K} {xs ys : List PoolTickRow} :
    loop input checks i replay (xs ++ ys) = .ok last ↔ ∃ mid,
      loop input checks i replay xs = .ok mid ∧
        loop input checks (i + xs.length) mid ys = .ok last := by
  simp only [loop_eq]
  exact Machine.loop_append

theorem loop_concat {i : ℕ} {replay last : Replay K} {xs : List PoolTickRow} {t : PoolTickRow} :
    loop input checks i replay (xs ++ [t]) = .ok last ↔ ∃ mid,
      loop input checks i replay xs = .ok mid ∧
        mid.step input checks (i + xs.length) t = .ok last := by
  simp only [loop_eq]
  exact Machine.loop_concat

/-- A fact that every pass preserves holds after the loop. -/
theorem loop_invariant {P : Replay K → Prop} {i : ℕ} {replay last : Replay K}
    {ticks : List PoolTickRow} (initial : P replay)
    (preserved : ∀ i before, ∀ t ∈ ticks, ∀ next, P before →
      before.step input checks i t = .ok next → P next)
    (returned : loop input checks i replay ticks = .ok last) : P last := by
  rw [loop_eq] at returned
  exact Machine.loop_invariant initial preserved returned

theorem loop_dayResults_prefix {i : ℕ} {replay last : Replay K} {ticks : List PoolTickRow}
    (returned : loop input checks i replay ticks = .ok last) :
    replay.dayResults <+: last.dayResults := by
  refine loop_invariant (P := fun later => replay.dayResults <+: later.dayResults)
    (List.prefix_refl _) ?_ returned
  intro i before t _ next kept stepped
  have passed := step_passed stepped
  by_cases same : dateNaive t.time = before.currentDayDate
  · rw [(passed.sameDay same).1]
    exact kept
  · rw [(passed.newDay same).1]
    exact kept.trans (List.prefix_append ..)

/-- After the loop the state is on the last row's day, at its price. -/
theorem loop_last {i : ℕ} {replay last : Replay K} {ticks : List PoolTickRow} (listed : ticks ≠ [])
    (returned : loop input checks i replay ticks = .ok last) :
    last.currentDayDate = dateNaive (ticks.getLast listed).time ∧
      last.lastPrice = input.uiPrice (ticks.getLast listed) := by
  rw [← List.dropLast_append_getLast listed] at returned
  obtain ⟨mid, _, stepped⟩ := loop_concat.mp returned
  have passed := step_passed stepped
  exact ⟨passed.date, passed.price⟩

/-- Rows of the current day push nothing. -/
theorem loop_sameDay {i : ℕ} {replay last : Replay K} {ticks : List PoolTickRow}
    (same : ∀ t ∈ ticks, dateNaive t.time = replay.currentDayDate)
    (returned : loop input checks i replay ticks = .ok last) :
    last.dayResults = replay.dayResults ∧ last.currentDayNum = replay.currentDayNum := by
  have kept : last.currentDayDate = replay.currentDayDate ∧
      last.dayResults = replay.dayResults ∧ last.currentDayNum = replay.currentDayNum := by
    refine loop_invariant (P := fun later => later.currentDayDate = replay.currentDayDate ∧
      later.dayResults = replay.dayResults ∧ later.currentDayNum = replay.currentDayNum)
      ⟨rfl, rfl, rfl⟩ ?_ returned
    intro i before t member next held stepped
    obtain ⟨date, rows, number⟩ := held
    have passed := step_passed stepped
    have here := same t member
    have unmoved := passed.sameDay (here.trans date.symm)
    exact ⟨passed.date.trans here, unmoved.1.trans rows, unmoved.2.trans number⟩
  exact kept.2

/-- A run of rows of one new day closes the day before it and opens one. -/
theorem loop_newDay {i : ℕ} {replay last : Replay K} {t : PoolTickRow} {ticks : List PoolTickRow}
    (new : dateNaive t.time ≠ replay.currentDayDate)
    (same : ∀ s ∈ ticks, dateNaive s.time = dateNaive t.time)
    (returned : loop input checks i replay (t :: ticks) = .ok last) :
    last.dayResults = replay.dayResults ++ [replay.dayRow] ∧
      last.currentDayNum = replay.currentDayNum + 1 := by
  obtain ⟨next, stepped, rest⟩ := loop_cons.mp returned
  have passed := step_passed stepped
  have day := loop_sameDay (fun s member => (same s member).trans passed.date.symm) rest
  rw [day.1, day.2]
  exact passed.newDay new

/-- The rows pushed so far are numbered from one. -/
theorem loop_numbered {i : ℕ} {replay last : Replay K} {ticks : List PoolTickRow}
    (numbered : replay.dayResults.map (·.day) = List.range' 1 replay.currentDayNum)
    (returned : loop input checks i replay ticks = .ok last) :
    last.dayResults.map (·.day) = List.range' 1 last.currentDayNum := by
  refine loop_invariant
    (P := fun later => later.dayResults.map (·.day) = List.range' 1 later.currentDayNum)
    numbered ?_ returned
  intro i before t _ next held stepped
  have passed := step_passed stepped
  by_cases same : dateNaive t.time = before.currentDayDate
  · obtain ⟨rows, number⟩ := passed.sameDay same
    rw [rows, number, held]
  · obtain ⟨rows, number⟩ := passed.newDay same
    rw [rows, number, List.map_append, held, List.range'_1_concat, Nat.add_comm 1]
    rfl

end Replay

/-- Two rows of one UTC day. -/
def sameDate (s t : PoolTickRow) : Bool := dateNaive s.time == dateNaive t.time

/-- The maximal runs of consecutive rows of one date. -/
def dateRuns (ticks : List PoolTickRow) : List (List PoolTickRow) := ticks.splitBy sameDate

theorem run_sameDate {t : PoolTickRow} {ticks : List PoolTickRow}
    (chain : (t :: ticks).IsChain fun a b => sameDate a b = true) :
    ∀ s ∈ ticks, dateNaive s.time = dateNaive t.time := by
  induction ticks generalizing t with
  | nil =>
    intro s member
    cases member
  | cons u ticks ih =>
    obtain ⟨first, rest⟩ := List.isChain_cons_cons.mp chain
    have here : dateNaive t.time = dateNaive u.time := beq_iff_eq.mp first
    intro s member
    rw [here]
    rcases List.mem_cons.mp member with head | tail
    · rw [head]
    · exact ih rest s tail

namespace Replay

variable {input : DbBacktestInput K} {checks : Bool}

/-- The prices of the rows reported if the stream ended here. -/
def reportedPrices (replay : Replay K) : List (Option K) :=
  (replay.dayResults ++ [replay.dayRow]).map fun row => some row.price

omit [F64 K] in
/-- The run after `run` starts on another date than `run` ends on. -/
theorem chain_new {replay : Replay K} {run : List PoolTickRow} {runs : List (List PoolTickRow)}
    {listed : run ≠ []}
    (apart : (run :: runs).IsChain
      fun a b => ∃ ha hb, sameDate (a.getLast ha) (b.head hb) = false)
    (date : replay.currentDayDate = dateNaive (run.getLast listed).time) :
    ∀ next ∈ runs.head?, ∀ t ∈ next.head?, dateNaive t.time ≠ replay.currentDayDate := by
  intro next first t head
  cases runs with
  | nil => cases first
  | cons b runs =>
    obtain ⟨_, nonempty, differ⟩ := (List.isChain_cons_cons.mp apart).1
    cases first
    rw [List.head?_eq_some_head nonempty] at head
    cases head
    rw [date]
    exact fun equal => (beq_eq_false_iff_ne.mp differ) equal.symm

/-- Every run of a new date adds one row, at the price of its last tick. -/
theorem loop_runs {i : ℕ} {replay last : Replay K} (runs : List (List PoolTickRow))
    (listed : [] ∉ runs)
    (within : ∀ run ∈ runs, run.IsChain fun a b => sameDate a b = true)
    (apart : runs.IsChain fun a b => ∃ ha hb, sameDate (a.getLast ha) (b.head hb) = false)
    (new : ∀ run ∈ runs.head?, ∀ t ∈ run.head?, dateNaive t.time ≠ replay.currentDayDate)
    (returned : loop input checks i replay runs.flatten = .ok last) :
    last.currentDayNum = replay.currentDayNum + runs.length ∧
      last.reportedPrices =
        replay.reportedPrices ++ runs.map fun run => run.getLast?.map input.uiPrice := by
  induction runs generalizing i replay with
  | nil =>
    cases returned
    simp
  | cons run runs ih =>
    rw [List.flatten_cons] at returned
    obtain ⟨mid, through, after⟩ := loop_append.mp returned
    cases run with
    | nil => exact absurd (List.mem_cons_self ..) listed
    | cons t rest =>
      -- one run is one day: a new day's row is opened and ends on the run's last price
      have same := run_sameDate (within _ (List.mem_cons_self ..))
      obtain ⟨rows, number⟩ := loop_newDay (new _ rfl t rfl) same through
      obtain ⟨date, price⟩ := loop_last (List.cons_ne_nil t rest) through
      have tail := ih (fun member => listed (List.mem_cons_of_mem _ member))
        (fun later member => within later (List.mem_cons_of_mem _ member))
        apart.tail (chain_new apart date) after
      rw [tail.1, tail.2, number]
      constructor
      · rw [List.length_cons]
        omega
      · have added : mid.reportedPrices = replay.reportedPrices ++ [some mid.lastPrice] := by
          simp only [reportedPrices, rows, List.map_append]
          rfl
        rw [added, price, List.append_assoc, List.map_cons,
          List.getLast?_eq_some_getLast (List.cons_ne_nil t rest), Option.map_some,
          List.singleton_append]

end Replay

section Result

variable {checks : Bool} {input : DbBacktestInput K}

theorem runDbBacktest_of_loop {first : PoolTickRow} {ticks : List PoolTickRow}
    {opened last : Replay K} (start : Replay.start input checks first = .ok opened)
    (loop : Replay.loop input checks 0 opened (first :: ticks) = .ok last) :
    runDbBacktest checks input (first :: ticks) = .ok (last.finish input) := by
  have replayed : (Replay.start input checks first >>= fun replay =>
      Replay.loop input checks 0 replay (first :: ticks)) = .ok last :=
    (bind_ok_iff ..).mpr ⟨opened, start, loop⟩
  simp only [runDbBacktest, replayed]

/-- What has been reported up to a change of date stays in the report. -/
theorem days_prefix {xs ys : List PoolTickRow} {result : BacktestResult K} (xsListed : xs ≠ [])
    (ysListed : ys ≠ [])
    (differ : dateNaive (xs.getLast xsListed).time ≠ dateNaive (ys.head ysListed).time)
    (returned : runDbBacktest checks input (xs ++ ys) = .ok result) :
    ∃ early, runDbBacktest checks input xs = .ok early ∧ early.days <+: result.days := by
  obtain ⟨first, xs, split⟩ := List.exists_cons_of_ne_nil xsListed
  obtain ⟨t, ys, splitYs⟩ := List.exists_cons_of_ne_nil ysListed
  subst split splitYs
  obtain ⟨opened, last, start, loop, finished⟩ := runDbBacktest_ok returned
  obtain ⟨mid, through, after⟩ := Replay.loop_append.mp
    (show Replay.loop input checks 0 opened ((first :: xs) ++ (t :: ys)) = .ok last from loop)
  refine ⟨mid.finish input, runDbBacktest_of_loop start through, ?_⟩
  obtain ⟨next, stepped, rest⟩ := Replay.loop_cons.mp after
  -- the first row of `ys` pushes the row that `finish` would have pushed
  have date := (Replay.loop_last xsListed through).1
  have new : dateNaive t.time ≠ mid.currentDayDate := by
    rw [date]
    exact differ.symm
  have flushed := ((Replay.step_passed stepped).newDay new).1
  rw [finished, Replay.finish_days, Replay.finish_days, ← flushed]
  exact (Replay.loop_dayResults_prefix rest).trans (List.prefix_append ..)

theorem days_are_date_runs {ticks : List PoolTickRow} {result : BacktestResult K}
    (returned : runDbBacktest checks input ticks = .ok result) :
    result.days.map (·.day) = List.range' 1 (dateRuns ticks).length ∧
      result.days.map (fun row => some row.price) =
        (dateRuns ticks).map fun run => run.getLast?.map input.uiPrice := by
  obtain ⟨flat, listed, within, apart⟩ := List.splitBy_eq_iff.mp (rfl : dateRuns ticks = _)
  cases ticks with
  | nil => cases returned
  | cons first ticks =>
    obtain ⟨opened, last, start, loop, finished⟩ := runDbBacktest_ok returned
    have opening := Replay.start_ok start
    have numbered := Replay.loop_numbered (by rw [opening.rows, opening.dayNum]; rfl) loop
    generalize dateRuns (first :: ticks) = runs at flat listed within apart ⊢
    cases runs with
    | nil => cases flat
    | cons run runs =>
      cases run with
      | nil => exact absurd (List.mem_cons_self ..) listed
      | cons t rest =>
        rw [flat, List.flatten_cons] at loop
        obtain ⟨mid, through, after⟩ := Replay.loop_append.mp loop
        have head : t = first := (List.cons.inj flat).1.symm
        subst head
        -- the first run is on the day the replay starts with
        have same := run_sameDate (within _ (List.mem_cons_self ..))
        have day := Replay.loop_sameDay (List.forall_mem_cons.mpr
          ⟨opening.date.symm, fun s member => (same s member).trans opening.date.symm⟩) through
        obtain ⟨lastDate, price⟩ := Replay.loop_last (List.cons_ne_nil t rest) through
        have later := Replay.loop_runs runs (fun member => listed (List.mem_cons_of_mem _ member))
          (fun run member => within run (List.mem_cons_of_mem _ member)) apart.tail
          (Replay.chain_new apart lastDate) after
        rw [finished, Replay.finish_days]
        constructor
        · have days : last.currentDayNum = runs.length := by
            rw [later.1, day.2, opening.dayNum, Nat.zero_add]
          rw [List.map_append, numbered, List.length_cons, List.range'_1_concat, days,
            Nat.add_comm 1]
          simp only [List.map_singleton, Replay.dayRow, days]
        · rw [List.map_cons, List.getLast?_eq_some_getLast (List.cons_ne_nil t rest),
            Option.map_some, ← price]
          refine later.2.trans ?_
          simp only [Replay.reportedPrices, day.1, opening.rows, List.nil_append, List.map_singleton,
            Replay.dayRow, List.singleton_append]

theorem days_length {ticks : List PoolTickRow} {result : BacktestResult K}
    (returned : runDbBacktest checks input ticks = .ok result) :
    result.days.length = (dateRuns ticks).length := by
  rw [← List.length_map (·.day), (days_are_date_runs returned).1, List.length_range']

/-- The totals are those of the last row. -/
theorem totals_of_last_row {ticks : List PoolTickRow} {result : BacktestResult K}
    (returned : runDbBacktest checks input ticks = .ok result) :
    ∃ row, result.days.getLast? = some row ∧ row.cumulativeFeesUsd = result.totalFeesUsd ∧
      row.ilUsd = result.totalIlUsd ∧ row.netPnlUsd = result.netPnlUsd := by
  cases ticks with
  | nil => cases returned
  | cons first ticks =>
    obtain ⟨opened, last, _, _, finished⟩ := runDbBacktest_ok returned
    refine ⟨last.dayRow, ?_, ?_⟩
    · rw [finished, Replay.finish_days, List.getLast?_concat]
    · rw [finished]
      exact ⟨rfl, rfl, rfl⟩

end Result

/-- The replay has no look-ahead, and its days are the calendar runs of the stream: rows are
numbered from one, one for each run of a date, at the price of the run's last tick. -/
theorem days_without_lookahead (input : DbBacktestInput K) :
    (∀ checks xs ys result, (xsListed : xs ≠ []) → (ysListed : ys ≠ []) →
      dateNaive (xs.getLast xsListed).time ≠ dateNaive (ys.head ysListed).time →
      runDbBacktest checks input (xs ++ ys) = .ok result →
      ∃ early, runDbBacktest checks input xs = .ok early ∧ early.days <+: result.days) ∧
    (∀ checks ticks result, runDbBacktest checks input ticks = .ok result →
      result.days.map (·.day) = List.range' 1 (dateRuns ticks).length ∧
      result.days.map (fun row => some row.price) =
        (dateRuns ticks).map fun run => run.getLast?.map input.uiPrice) ∧
    (0 < input.tickSpacing → ∀ ticks ≠ [], ∃ result,
      runDbBacktest false input ticks = .ok result) := by
  refine ⟨?_, ?_, ?_⟩
  · intro checks xs ys result xsListed ysListed differ returned
    exact days_prefix xsListed ysListed differ returned
  · intro checks ticks result returned
    exact days_are_date_runs returned
  · intro positive ticks listed
    exact runDbBacktest_unchecked positive listed

/-- A row at midnight of a date, at price one. -/
def midnightRow (date : ℤ) : PoolTickRow :=
  ⟨date * 86400000000, "pool", date, 0, 2 ^ 64, 1, 0, 0⟩

theorem days_without_lookahead_sample : ∃ early result,
    runDbBacktest false sampleInput [midnightRow 0, midnightRow 0] = .ok early ∧
      runDbBacktest false sampleInput ([midnightRow 0, midnightRow 0] ++ [midnightRow 1]) =
        .ok result ∧
      early.days <+: result.days ∧ result.days.map (·.day) = [1, 2] := by
  obtain ⟨prefixes, runs, returns⟩ := days_without_lookahead sampleInput
  obtain ⟨result, returned⟩ := returns (by decide)
    ([midnightRow 0, midnightRow 0] ++ [midnightRow 1]) (by simp)
  obtain ⟨early, before, kept⟩ := prefixes false [midnightRow 0, midnightRow 0] [midnightRow 1]
    result (by simp) (by simp) (by decide) returned
  refine ⟨early, result, before, returned, kept, ?_⟩
  rw [(runs false _ result returned).1]
  rfl

end TickLiq
