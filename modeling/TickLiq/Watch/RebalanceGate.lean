import TickLiq.Watch.RiskGate

/-!
# The gates before a rebalance decision

After the risk gate a tick checks the operator pause and only then asks
`should_rebalance`. The risk gate goes by the action that `evaluate` returns, not
by the flags it leaves. With an IL limit the two agree; without one, a
`pause_flag` carried over from an earlier session is never looked at.
-/
namespace TickLiq.Watch

open Machine (after)
open RiskMonitor (evaluate_halted evaluate_breach evaluate_within)

variable {K : Type*} [Field K] [LinearOrder K]

inductive GateOutcome where
  | riskStop
  | operatorStop
  /-- The tick reaches `should_rebalance`. -/
  | decision
deriving DecidableEq

def tickGates (s : Session K) (t : Tick K) : Session K × GateOutcome :=
  let (s, stop) := riskGate s t
  -- `if halt_tick { return; }`
  if stop then (s, .riskStop)
  -- operator pause gate (D-04)
  else if s.monitor.state.operatorPause then (s, .operatorStop)
  else (s, .decision)

/-- What happens to a session: ticks, and `/pause` or `/resume` between them. -/
inductive GateEvent (K : Type*) where
  | tick (t : Tick K)
  | operator (paused : Bool) (now : Timestamp)

def gateStep (s : Session K) : GateEvent K → Session K
  | .tick t => (tickGates s t).1
  | .operator paused now =>
    ⟨{ s.monitor with state := { s.monitor.state with operatorPause := paused } },
      s.row.setOperatorPause paused now⟩

def gateAfter (s : Session K) (events : List (GateEvent K)) (n : ℕ) : Session K :=
  after gateStep s events n

/-- The session that starts from a stored row under the given limits. -/
def startedSession (maxDrawdownPct maxIlPct driftMinMarginRatio : Option K) (loaded : RiskState K)
    (now : Timestamp) : Session K :=
  let (st, row) := RiskRow.startSession (some loaded) loaded.poolAddress now
  ⟨⟨st, maxDrawdownPct, maxIlPct, driftMinMarginRatio⟩, row⟩

/-- Every tick that reaches the decision does so with all three flags clear. -/
def DecidesUnpaused (s : Session K) (events : List (GateEvent K)) : Prop :=
  ∀ n, ∀ inside : n < events.length, ∀ t, events[n] = .tick t →
    (tickGates (gateAfter s events n) t).2 = .decision →
    (tickGates (gateAfter s events n) t).1.monitor.state.haltFlag = false ∧
    (tickGates (gateAfter s events n) t).1.monitor.state.pauseFlag = false ∧
    (tickGates (gateAfter s events n) t).1.monitor.state.operatorPause = false

omit [Field K] [LinearOrder K] in
@[simp] theorem haltTick_haltAll (dd : K) : haltTick (.haltAll dd) = true := rfl

theorem tickGates_session (s : Session K) (t : Tick K) : (tickGates s t).1 = (riskGate s t).1 := by
  unfold tickGates
  dsimp only
  split
  · rfl
  · split <;> rfl

theorem decision_iff (s : Session K) (t : Tick K) :
    (tickGates s t).2 = .decision ↔
      (riskGate s t).2 = false ∧ (riskGate s t).1.monitor.state.operatorPause = false := by
  unfold tickGates
  dsimp only
  split
  next stop => simp [stop]
  next pass =>
    split
    next paused => simp [paused]
    next clear => simp_all

/-- Passing the risk gate: the monitor is active, and the IL limit, if there is
one, is respected and the pause cleared. -/
theorem riskGate_pass (s : Session K) (t : Tick K) (pass : (riskGate s t).2 = false) :
    (riskGate s t).1.monitor.state.haltFlag = false ∧
      (riskGate s t).1.monitor.state.pauseFlag =
        (s.monitor.maxIlPct.isNone && s.monitor.state.pauseFlag) := by
  simp only [riskGate, RiskMonitor.call] at pass ⊢
  generalize t.call.snap = snap at pass ⊢
  generalize t.call.driftMarginRatio = margin at pass ⊢
  generalize t.call.now = now at pass ⊢
  cases halted : s.monitor.state.haltFlag with
  | true => simp [evaluate_halted s.monitor snap margin now halted] at pass
  | false =>
    by_cases breach : RiskMonitor.Breaches s.monitor.maxDrawdownPct
        (max s.monitor.state.peakPnl snap.netPnl) snap.netPnl
    · simp [evaluate_breach s.monitor snap margin now halted breach] at pass
    · obtain ⟨dd, result⟩ := evaluate_within s.monitor snap margin now halted breach
      rw [result] at pass ⊢
      refine ⟨rfl, ?_⟩
      -- with a limit the gate passes only below it, where the flag is cleared
      cases limit : s.monitor.maxIlPct with
      | none => simp [RiskMonitor.pauseAfter]
      | some maxIl =>
        by_cases above : maxIl < RiskMonitor.ilPct snap
        · simp [limit, RiskMonitor.ilAction, above, haltTick] at pass
        · simp [RiskMonitor.pauseAfter, above]

/-- What every reachable session keeps of its start. -/
def KeepsStart (start s : Session K) : Prop :=
  s.monitor.maxIlPct = start.monitor.maxIlPct ∧
  (start.monitor.maxIlPct = none → s.monitor.state.pauseFlag = start.monitor.state.pauseFlag) ∧
  (start.monitor.state.haltFlag = true → s.monitor.state.haltFlag = true)

theorem keepsStart_step (start s : Session K) (e : GateEvent K) (kept : KeepsStart start s) :
    KeepsStart start (gateStep s e) := by
  obtain ⟨limit, paused, halted⟩ := kept
  cases e with
  | operator => exact ⟨limit, paused, halted⟩
  | tick t =>
    simp only [KeepsStart, gateStep, tickGates_session, riskGate, RiskMonitor.call,
      RiskMonitor.evaluate_maxIlPct]
    refine ⟨limit, fun unlimited => ?_, fun stopped => ?_⟩
    · rw [RiskMonitor.evaluate_pauseFlag, limit, unlimited]
      simpa [RiskMonitor.pauseAfter] using paused unlimited
    · rw [RiskMonitor.evaluate_haltFlag, halted stopped, Bool.true_or]

theorem keepsStart_after (start : Session K) (events : List (GateEvent K)) (n : ℕ) :
    KeepsStart start (gateAfter start events n) :=
  Machine.after_invariant gateStep (KeepsStart start) (keepsStart_step start) start events
    ⟨rfl, fun _ => rfl, id⟩ n

omit [LinearOrder K] in
@[simp] theorem startedSession_pauseFlag (maxDrawdownPct maxIlPct driftMinMarginRatio : Option K)
    (loaded : RiskState K) (now : Timestamp) :
    (startedSession maxDrawdownPct maxIlPct driftMinMarginRatio loaded now).monitor.state.pauseFlag =
      loaded.pauseFlag := rfl

omit [LinearOrder K] in
@[simp] theorem startedSession_haltFlag (maxDrawdownPct maxIlPct driftMinMarginRatio : Option K)
    (loaded : RiskState K) (now : Timestamp) :
    (startedSession maxDrawdownPct maxIlPct driftMinMarginRatio loaded now).monitor.state.haltFlag =
      loaded.haltFlag := rfl

/-- Flat P&L, no IL, no margin reading: nothing for the monitor to react to. -/
def calmTick : Tick K := ⟨⟨⟨0, 0, 0⟩, none, 0⟩, true, 0⟩

/-- A calm tick on a resumed, active session without an IL limit reaches the
decision and leaves the pause flag alone. -/
theorem calm_decision [IsStrictOrderedRing K] (s : Session K)
    (active : s.monitor.state.haltFlag = false) (flat : s.monitor.state.peakPnl = 0)
    (unlimited : s.monitor.maxIlPct = none) (resumed : s.monitor.state.operatorPause = false) :
    (tickGates s calmTick).2 = .decision ∧
      (tickGates s calmTick).1.monitor.state.pauseFlag = s.monitor.state.pauseFlag := by
  -- a peak of zero establishes no drawdown
  have quiet : ¬ RiskMonitor.Breaches s.monitor.maxDrawdownPct
      (max s.monitor.state.peakPnl (0 : K)) 0 := by
    rintro ⟨maxDd, -, established, -⟩
    rw [flat, max_self] at established
    exact absurd established (not_le.mpr (by simp [RiskMonitor.minPeakUsd]))
  obtain ⟨dd, result⟩ := evaluate_within s.monitor ⟨0, 0, 0⟩ none 0 active quiet
  have action : s.monitor.checkMargin none = .continue := by
    unfold RiskMonitor.checkMargin
    split <;> simp_all
  rw [decision_iff, tickGates_session]
  simp only [riskGate, RiskMonitor.call, calmTick, result, unlimited, RiskMonitor.ilAction,
    Option.getD_none, action, haltTick, RiskMonitor.pauseAfter]
  exact ⟨⟨trivial, resumed⟩, trivial⟩

/-- Decisions are taken with all flags clear, whatever happens to the session,
exactly when an IL limit is set or the loaded row carries no live `pause_flag`. -/
theorem decides_unpaused_iff [IsStrictOrderedRing K]
    (maxDrawdownPct maxIlPct driftMinMarginRatio : Option K) (loaded : RiskState K)
    (now : Timestamp) :
    (∀ events, DecidesUnpaused
        (startedSession maxDrawdownPct maxIlPct driftMinMarginRatio loaded now) events) ↔
      maxIlPct ≠ none ∨ loaded.pauseFlag = false ∨ loaded.haltFlag = true := by
  set start := startedSession maxDrawdownPct maxIlPct driftMinMarginRatio loaded now with opened
  constructor
  · intro safe
    by_contra carried
    push Not at carried
    obtain ⟨unlimited, paused, active⟩ := carried
    have resumedStart := calm_decision (gateStep start (.operator false now))
      (by simpa [opened, gateStep] using active) rfl unlimited rfl
    have flags := safe [.operator false now, .tick calmTick] 1 (by simp) calmTick rfl
      resumedStart.1
    have carriedOver := flags.2.1.symm.trans resumedStart.2
    simp [opened, gateStep, paused] at carriedOver
  · intro carried events n inside t _ reached
    obtain ⟨limit, pauseKept, haltKept⟩ := keepsStart_after start events n
    obtain ⟨pass, resumed⟩ := (decision_iff _ _).mp reached
    obtain ⟨active, pause⟩ := riskGate_pass _ _ pass
    rw [tickGates_session]
    refine ⟨active, ?_, resumed⟩
    rw [pause, limit]
    rcases carried with limited | unpaused | halted
    · have set : start.monitor.maxIlPct.isNone = false := by
        cases given : maxIlPct with
        | none => exact absurd given limited
        | some _ => simp [opened, startedSession, given]
      rw [set, Bool.false_and]
    · cases given : start.monitor.maxIlPct with
      | some _ => rfl
      | none => rw [pauseKept given, startedSession_pauseFlag, unpaused, Bool.and_false]
    · -- a session that starts halted never gets past the risk gate
      have latched := haltKept (by rw [opened, startedSession_haltFlag, halted])
      have still := RiskMonitor.evaluate_haltFlag (gateAfter start events n).monitor t.call.snap
        t.call.driftMarginRatio t.call.now
      rw [latched, Bool.true_or] at still
      exact absurd (still.symm.trans active) Bool.false_ne_true.symm

/-- No IL limit, and a row that an earlier session left paused. -/
def pausedRow : RiskState ℚ := ⟨"pool", 0, 0, true, false, false, 0⟩

/-- A session with both limits, on a row that is left with both pauses. -/
def leftSession : Session ℚ :=
  startedSession (some 15) (some 4) none ⟨"pool", 100, 3, true, false, true, 7⟩ 8

theorem decides_unpaused_iff_left :
    (∀ events, DecidesUnpaused leftSession events) ∧
      leftSession.monitor.state.pauseFlag = true ∧
      (tickGates (gateAfter leftSession [.operator false 9] 1)
        ⟨⟨⟨0, 100, 1000⟩, none, 10⟩, true, 11⟩).2 = .decision :=
  ⟨(decides_unpaused_iff (some 15) (some 4) none ⟨"pool", 100, 3, true, false, true, 7⟩ 8).mpr
    (Or.inl (by decide)), rfl, by decide +kernel⟩

/-- The first tick of the session reaches the decision with `pause_flag` set. -/
theorem carried_pause_ignored :
    ¬ DecidesUnpaused (startedSession none none none pausedRow 0) [.tick calmTick] := by
  intro safe
  have flags := safe 0 (by decide) calmTick rfl (by decide +kernel)
  exact absurd flags.2.1 (by decide +kernel)

end TickLiq.Watch
