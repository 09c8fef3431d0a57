import TickLiq.Watch.LiveSession

/-!
# The operator pause across its two copies

A handler updates the row first and the monitor second; the loop clones the
monitor first and writes the row second. A clone taken inside a handler, or a
handler started while a clone is on its way, carries the old value and
overwrites the new one. Outside these two overlaps the two copies agree whenever
nothing is in flight, and each of them can be played on to a disagreement.
-/
namespace TickLiq.Watch

open Machine (run run_history Guarded guarded_invariant)
open RiskMonitor (sampleMonitor)

variable {K : Type*} [Field K] [LinearOrder K]

/-- The value requested by the last handler to finish. -/
def lastRequested (initially : Bool) (events : List (LiveEvent K)) : Bool :=
  events.foldl (fun paused e => match e with | .handlerMemory v => v | _ => paused) initially

/-- The value that the handlers want stored: of the one in flight, else in memory. -/
def Live.wanted (live : Live K) : Bool :=
  live.handler.getD live.monitor.state.operatorPause

/-- No handler and no upsert is in flight. -/
def Quiescent (live : Live K) : Prop :=
  live.handler = none ∧ ∀ clone, live.tick ≠ .persisting clone

def Stored (row : RiskRow K) (paused : Bool) : Prop :=
  ∃ st, row = some st ∧ st.operatorPause = paused

/-- A step that keeps handlers and clones apart: no `UPDATE` while a clone with
another value is being written, and no such clone taken inside a handler. -/
def KeepsApart (s : Live K × RiskRow K) : LiveEvent K → Prop
  | .handlerUpdate paused _ =>
    ∀ clone, s.1.tick = .persisting clone → clone.operatorPause = paused
  | .clone =>
    ∀ before, s.1.tick = .evaluated before → durable s.1.monitor.state ≠ before →
      ∀ paused, s.1.handler = some paused → s.1.monitor.state.operatorPause = paused
  | _ => True

instance [DecidableEq K] (s : Live K × RiskRow K) :
    (e : LiveEvent K) → Decidable (KeepsApart s e)
  | .handlerUpdate paused _ =>
    match phase : s.1.tick with
    | .persisting clone =>
      decidable_of_iff (clone.operatorPause = paused) (by simp [KeepsApart, phase])
    | .idle | .snapped _ | .evaluated _ => isTrue (by simp [KeepsApart, phase])
  | .clone =>
    match phase : s.1.tick with
    | .evaluated before =>
      decidable_of_iff (durable s.1.monitor.state ≠ before →
        ∀ paused, s.1.handler = some paused → s.1.monitor.state.operatorPause = paused)
        (by simp [KeepsApart, phase])
    | .idle | .snapped _ | .persisting _ => isTrue (by simp [KeepsApart, phase])
  | .snapshot | .evaluate _ | .persist _ _ | .handlerMemory _ => isTrue trivial

/-- The row, and a clone on its way to the row, hold the wanted value. -/
def PauseKept (s : Live K × RiskRow K) : Prop :=
  Stored s.2 s.1.wanted ∧ ∀ clone, s.1.tick = .persisting clone → clone.operatorPause = s.1.wanted

omit [Field K] [LinearOrder K] in
theorem stored_unique {row : RiskRow K} {v w : Bool} (left : Stored row v) (right : Stored row w) :
    v = w := by
  obtain ⟨st, rfl, rfl⟩ := left
  obtain ⟨_, same, rfl⟩ := right
  rw [Option.some.inj same]

omit [Field K] [LinearOrder K] in
theorem stored_setOperatorPause [Zero K] {row : RiskRow K} {v : Bool} (held : Stored row v)
    (paused : Bool) (now : Timestamp) : Stored (row.setOperatorPause paused now) paused := by
  obtain ⟨st, rfl, -⟩ := held
  exact ⟨_, rfl, rfl⟩

theorem pauseKept_step (s : Live K × RiskRow K) (e : LiveEvent K) (t : Live K × RiskRow K)
    (kept : PauseKept s) (apart : KeepsApart s e) (moved : liveStep s e = some t) :
    PauseKept t := by
  obtain ⟨live, row⟩ := s
  obtain ⟨stored, cloned⟩ := kept
  obtain ⟨rfl, phase, rfl⟩ | ⟨call, before, rfl, phase, rfl⟩ | ⟨before, rfl, phase, rfl⟩ |
    ⟨accepted, now, clone, rfl, phase, rfl⟩ | ⟨paused, now, rfl, free, rfl⟩ |
    ⟨paused, rfl, mine, rfl⟩ := liveStep_cases moved
  · exact ⟨stored, by rintro _ ⟨⟩⟩
  · -- `evaluate` never touches the operator pause
    have same : ((live.monitor.call call).1).state.operatorPause =
      live.monitor.state.operatorPause := RiskMonitor.evaluate_operatorPause _ _ _ _
    simp only [PauseKept, Live.wanted, same] at stored ⊢
    exact ⟨stored, by rintro _ ⟨⟩⟩
  · refine ⟨stored, fun clone written => ?_⟩
    -- a clone to be written was taken outside a handler, or inside one that wants the same
    unfold afterClone at written
    dsimp only at written
    split at written
    next changed =>
      cases written
      unfold Live.wanted
      cases inFlight : live.handler with
      | none => rfl
      | some paused => exact apart before phase changed paused inFlight
    next => cases written
  · refine ⟨?_, by rintro _ ⟨⟩⟩
    -- the upsert stores the clone's value, which is the wanted one
    cases accepted with
    | true => exact ⟨_, rfl, cloned clone phase⟩
    | false => exact stored
  · refine ⟨stored_setOperatorPause stored paused now, fun clone written => ?_⟩
    exact apart clone written
  · simp only [Live.wanted, mine, Option.getD_some] at stored cloned
    exact ⟨stored, cloned⟩

/-- A handler writes what it was asked for; nothing else moves the monitor's copy. -/
theorem operatorPause_eq_lastRequested (start t : Live K × RiskRow K) (events : List (LiveEvent K))
    (played : run liveStep start events = some t) :
    t.1.monitor.state.operatorPause =
      lastRequested start.1.monitor.state.operatorPause events := by
  refine run_history liveStep start (fun events u => u.1.monitor.state.operatorPause =
    lastRequested start.1.monitor.state.operatorPause events) rfl ?_ events t played
  intro es u e v _ soFar moved
  obtain ⟨live, row⟩ := u
  rw [lastRequested, List.foldl_append]
  obtain ⟨rfl, -, rfl⟩ | ⟨call, _, rfl, -, rfl⟩ | ⟨_, rfl, -, rfl⟩ | ⟨_, _, _, rfl, -, rfl⟩ |
    ⟨_, _, rfl, -, rfl⟩ | ⟨paused, rfl, -, rfl⟩ := liveStep_cases moved
  · exact soFar
  · exact (RiskMonitor.evaluate_operatorPause _ _ _ _).trans soFar
  · exact soFar
  · exact soFar
  · exact soFar
  · rfl

/-- Once the two sides overlap, finishing the handler and then the upsert leaves
the row with the old value. -/
theorem overlap_loses (live : Live K) (row : RiskRow K) (clone : RiskState K) (paused : Bool)
    (inFlight : live.handler = some paused) (writing : live.tick = .persisting clone)
    (stale : clone.operatorPause ≠ paused) :
    ∃ t, run liveStep (live, row) [.handlerMemory paused, .persist true 0] = some t ∧
      Quiescent t.1 ∧ ¬ Stored t.2 t.1.monitor.state.operatorPause := by
  obtain ⟨monitor, tick, handler⟩ := live
  cases inFlight
  cases writing
  refine ⟨_, by simp [run, liveStep, Live.setOperatorPause]; rfl, ⟨rfl, by rintro _ ⟨⟩⟩, ?_⟩
  intro stored
  -- the upsert comes last and brings the clone's value back
  have overwritten : Stored (some { clone with updatedAt := 0 }) clone.operatorPause :=
    ⟨_, rfl, rfl⟩
  exact stale (stored_unique overwritten stored)

/-- A session between two ticks, its row and its monitor in agreement. -/
def InStep (s : Live K × RiskRow K) : Prop :=
  s.1.tick = .idle ∧ s.1.handler = none ∧ Stored s.2 s.1.monitor.state.operatorPause

/-- In every run that keeps handlers and clones apart, the stored and the
in-memory pause agree with the last completed command whenever nothing is in
flight. A step that does not keep them apart can be played on to a state in
which nothing is in flight and the two copies differ. -/
theorem operator_pause_kept (start t : Live K × RiskRow K) (events : List (LiveEvent K))
    (agreed : InStep start) (played : run liveStep start events = some t) :
    (Guarded liveStep KeepsApart start events → Quiescent t.1 →
      Stored t.2 t.1.monitor.state.operatorPause ∧
      t.1.monitor.state.operatorPause =
        lastRequested start.1.monitor.state.operatorPause events) ∧
    (∀ e u, liveStep t e = some u → ¬ KeepsApart t e →
      ∃ later v, run liveStep u later = some v ∧ Quiescent v.1 ∧
        ¬ Stored v.2 v.1.monitor.state.operatorPause) := by
  constructor
  · intro guarded quiet
    have initially : PauseKept start := by
      obtain ⟨idle, free, stored⟩ := agreed
      refine ⟨by simpa only [Live.wanted, free, Option.getD_none] using stored, ?_⟩
      intro clone written
      rw [idle] at written
      cases written
    have kept := guarded_invariant liveStep KeepsApart PauseKept pauseKept_step
      start t events played guarded initially
    have stored := kept.1
    rw [Live.wanted, quiet.1] at stored
    exact ⟨stored, operatorPause_eq_lastRequested start t events played⟩
  · intro e u moved overlap
    obtain ⟨live, row⟩ := t
    -- only two kinds of step can overlap
    obtain ⟨rfl, phase, rfl⟩ | ⟨call, before, rfl, phase, rfl⟩ | ⟨before, rfl, phase, rfl⟩ |
      ⟨accepted, now, clone, rfl, phase, rfl⟩ | ⟨paused, now, rfl, free, rfl⟩ |
      ⟨paused, rfl, mine, rfl⟩ := liveStep_cases moved
    · exact absurd trivial overlap
    · exact absurd trivial overlap
    · simp only [KeepsApart] at overlap
      push Not at overlap
      obtain ⟨_, _, changed, paused, inFlight, stale⟩ := overlap
      obtain rfl : _ = before := by
        have same := ‹live.tick = _›.symm.trans phase
        injection same
      refine ⟨_, overlap_loses _ row live.monitor.state paused inFlight ?_ stale⟩
      exact if_pos changed
    · exact absurd trivial overlap
    · simp only [KeepsApart] at overlap
      push Not at overlap
      obtain ⟨clone, writing, stale⟩ := overlap
      exact ⟨_, overlap_loses _ _ clone paused rfl writing stale⟩
    · exact absurd trivial overlap

def restingSession : Live ℚ × RiskRow ℚ :=
  (⟨sampleMonitor, .idle, none⟩, some sampleMonitor.state)

/-- A tick stores a new peak, and then `/pause` arrives. -/
def peakTick : Tick ℚ := ⟨⟨⟨0, 100, 1000⟩, none, 1⟩, true, 2⟩

def pauseAfterTick : List (LiveEvent ℚ) :=
  tickEvents ⟨sampleMonitor, some sampleMonitor.state⟩ peakTick ++
    [.handlerUpdate true 3, .handlerMemory true]

theorem operator_pause_kept_undisturbed :
    InStep restingSession ∧ ∃ t, run liveStep restingSession pauseAfterTick = some t ∧
      Stored t.2 true ∧ t.1.monitor.state.operatorPause = true ∧
      ∃ st, t.2 = some st ∧ st.peakPnl = 100 := by
  have agreed : InStep restingSession := ⟨rfl, rfl, _, rfl, rfl⟩
  have tick := tickEvents_riskGate ⟨sampleMonitor, some sampleMonitor.state⟩ peakTick
  have gated : riskGate ⟨sampleMonitor, some sampleMonitor.state⟩ peakTick =
      (⟨⟨⟨"POOL", 100, 0, false, false, false, 1⟩, some 15, some 4, none⟩,
        some ⟨"POOL", 100, 0, false, false, false, 2⟩⟩, false) := by decide +kernel
  have played : run liveStep restingSession pauseAfterTick =
      some (⟨⟨⟨"POOL", 100, 0, false, false, true, 1⟩, some 15, some 4, none⟩, .idle, none⟩,
        some ⟨"POOL", 100, 0, false, false, true, 3⟩) := by
    rw [gated] at tick
    rw [pauseAfterTick, Machine.run_append, show run liveStep restingSession _ = _ from tick]
    rfl
  have kept := (operator_pause_kept restingSession _ pauseAfterTick agreed played).1
    (by decide +kernel)
  obtain ⟨stored, requested⟩ := kept ⟨rfl, by rintro clone ⟨⟩⟩
  exact ⟨agreed, _, played, stored, rfl, _, rfl, rfl⟩

/-- `/pause` arrives while the write of a new peak is on its way. -/
def pauseDuringWrite : List (LiveEvent ℚ) :=
  [.snapshot, .evaluate ⟨⟨0, 100, 1000⟩, none, 1⟩, .clone, .handlerUpdate true 1,
    .handlerMemory true, .persist true 2]

/-- Paused in memory, resumed in the row. -/
def splitSession : Live ℚ × RiskRow ℚ :=
  (⟨⟨⟨"POOL", 100, 0, false, false, true, 1⟩, some 15, some 4, none⟩, .idle, none⟩,
    some ⟨"POOL", 100, 0, false, false, false, 2⟩)

theorem pause_overwritten :
    InStep restingSession ∧ run liveStep restingSession pauseDuringWrite = some splitSession ∧
      Quiescent splitSession.1 ∧ lastRequested false pauseDuringWrite = true ∧
      splitSession.1.monitor.state.operatorPause = true ∧ ¬ Stored splitSession.2 true := by
  refine ⟨⟨rfl, rfl, _, rfl, rfl⟩, by decide +kernel, ⟨rfl, by rintro clone ⟨⟩⟩, rfl, rfl, ?_⟩
  intro stored
  exact absurd (stored_unique stored ⟨_, rfl, rfl⟩) (by decide)

end TickLiq.Watch
