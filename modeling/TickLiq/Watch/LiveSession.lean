import TickLiq.Watch.RiskGate

/-!
# A running session, step by step

`riskGate` treats a tick as one step. The source gives up the monitor's lock
between the `before` snapshot, the call of `evaluate`, the clone and the upsert,
and a bot handler runs its `UPDATE` and its memory write in the gaps. Here every
locked section and every SQL statement is a step of its own; played without a
handler in between, they make up `riskGate`.
-/
namespace TickLiq.Watch

open Machine (run)
open RiskMonitor (RiskCall)

variable {K : Type*} [Field K] [LinearOrder K]

/-- Where the watch loop stands in its tick. -/
inductive TickPhase (K : Type*) where
  | idle
  | snapped (before : K × Bool × Bool × Bool)
  | evaluated (before : K × Bool × Bool × Bool)
  | persisting (clone : RiskState K)
deriving DecidableEq

structure Live (K : Type*) where
  monitor : RiskMonitor K
  tick : TickPhase K
  /-- The handler that has updated the row and not yet the monitor. -/
  handler : Option Bool
deriving DecidableEq

inductive LiveEvent (K : Type*) where
  | snapshot
  | evaluate (call : RiskCall K)
  | clone
  | persist (accepted : Bool) (now : Timestamp)
  | handlerUpdate (paused : Bool) (now : Timestamp)
  | handlerMemory (paused : Bool)

/-- The clone is written if the durable fields moved since the snapshot. -/
def afterClone (before : K × Bool × Bool × Bool) (st : RiskState K) : TickPhase K :=
  if durable st ≠ before then .persisting st else .idle

def Live.setOperatorPause (live : Live K) (paused : Bool) : Live K :=
  { live with monitor := { live.monitor with
      state := { live.monitor.state with operatorPause := paused } }, handler := none }

def liveStep (s : Live K × RiskRow K) (e : LiveEvent K) : Option (Live K × RiskRow K) :=
  let (live, row) := s
  match e, live.tick with
  | .snapshot, .idle => some ({ live with tick := .snapped (durable live.monitor.state) }, row)
  | .evaluate call, .snapped before =>
    some ({ live with monitor := (live.monitor.call call).1, tick := .evaluated before }, row)
  | .clone, .evaluated before =>
    some ({ live with tick := afterClone before live.monitor.state }, row)
  | .persist accepted now, .persisting clone =>
    -- a refused upsert is logged and dropped
    some ({ live with tick := .idle }, if accepted then row.persistState clone now else row)
  -- handlers do not overlap each other
  | .handlerUpdate paused now, _ =>
    if live.handler = none then
      some ({ live with handler := some paused }, row.setOperatorPause paused now)
    else none
  | .handlerMemory paused, _ =>
    if live.handler = some paused then some (live.setOperatorPause paused, row) else none
  | _, _ => none

/-- What each enabled step does; later proofs split on this and not on `liveStep`. -/
theorem liveStep_cases {live : Live K} {row : RiskRow K} {e : LiveEvent K}
    {t : Live K × RiskRow K} (moved : liveStep (live, row) e = some t) :
    (e = .snapshot ∧ live.tick = .idle ∧
      t = ({ live with tick := .snapped (durable live.monitor.state) }, row)) ∨
    (∃ call before, e = .evaluate call ∧ live.tick = .snapped before ∧
      t = ({ live with monitor := (live.monitor.call call).1, tick := .evaluated before }, row)) ∨
    (∃ before, e = .clone ∧ live.tick = .evaluated before ∧
      t = ({ live with tick := afterClone before live.monitor.state }, row)) ∨
    (∃ accepted now clone, e = .persist accepted now ∧ live.tick = .persisting clone ∧
      t = ({ live with tick := .idle },
        if accepted then row.persistState clone now else row)) ∨
    (∃ paused now, e = .handlerUpdate paused now ∧ live.handler = none ∧
      t = ({ live with handler := some paused }, row.setOperatorPause paused now)) ∨
    (∃ paused, e = .handlerMemory paused ∧ live.handler = some paused ∧
      t = (live.setOperatorPause paused, row)) := by
  obtain ⟨monitor, tick, handler⟩ := live
  cases e with
  -- the three phases of the loop go by the tick
  | snapshot =>
    cases tick <;> simp only [liveStep, reduceCtorEq, Option.some.injEq] at moved
    exact .inl ⟨rfl, rfl, moved.symm⟩
  | evaluate call =>
    cases tick <;> simp only [liveStep, reduceCtorEq, Option.some.injEq] at moved
    exact .inr (.inl ⟨call, _, rfl, rfl, moved.symm⟩)
  | clone =>
    cases tick <;> simp only [liveStep, reduceCtorEq, Option.some.injEq] at moved
    exact .inr (.inr (.inl ⟨_, rfl, rfl, moved.symm⟩))
  | persist accepted now =>
    cases tick <;> simp only [liveStep, reduceCtorEq, Option.some.injEq] at moved
    exact .inr (.inr (.inr (.inl ⟨accepted, now, _, rfl, rfl, moved.symm⟩)))
  -- the handlers run in any phase of the tick
  | handlerUpdate paused now =>
    simp only [liveStep] at moved
    split at moved
    next free =>
      exact .inr (.inr (.inr (.inr (.inl ⟨paused, now, rfl, free, (Option.some.inj moved).symm⟩))))
    next => cases moved
  | handlerMemory paused =>
    simp only [liveStep] at moved
    split at moved
    next mine =>
      exact .inr (.inr (.inr (.inr (.inr ⟨paused, rfl, mine, (Option.some.inj moved).symm⟩))))
    next => cases moved

/-- The steps of one undisturbed tick. -/
def tickEvents (s : Session K) (t : Tick K) : List (LiveEvent K) :=
  [.snapshot, .evaluate t.call, .clone] ++
    if durable (s.monitor.call t.call).1.state ≠ durable s.monitor.state then
      [.persist t.writeAccepted t.writtenAt]
    else []

/-- Undisturbed, the steps of a tick make up `riskGate`. -/
theorem tickEvents_riskGate (s : Session K) (t : Tick K) :
    run liveStep (⟨s.monitor, .idle, none⟩, s.row) (tickEvents s t) =
      some (⟨(riskGate s t).1.monitor, .idle, none⟩, (riskGate s t).1.row) := by
  simp only [tickEvents, riskGate]
  -- an unchanged state ends the tick at the clone
  by_cases moved : durable (s.monitor.call t.call).1.state ≠ durable s.monitor.state
  · have writes : afterClone (durable s.monitor.state) (s.monitor.call t.call).1.state =
        .persisting (s.monitor.call t.call).1.state := if_pos moved
    rw [if_pos moved]
    cases t.writeAccepted <;>
      simp only [List.cons_append, List.nil_append, run, liveStep, writes, Option.bind_some, moved,
        ne_eq, not_false_eq_true, and_false, and_self, if_true, if_false, Bool.false_eq_true]
  · have rests : afterClone (durable s.monitor.state) (s.monitor.call t.call).1.state = .idle :=
      if_neg moved
    simp only [List.append_nil, run, liveStep, rests, Option.bind_some, moved,
      false_and, if_false]

end TickLiq.Watch
