import TickLiq.Storage.RiskRow
import TickLiq.Strategy.RiskTrace

/-!
# The risk gate of the watch loop

One tick runs `evaluate` and writes the row when the durable fields changed. The
write may be refused; the loop logs the error and goes on.
-/
namespace TickLiq.Watch

open Machine (after after_succ)
open RiskMonitor (RiskCall monitorAfter)

variable {K : Type*} [Field K] [LinearOrder K]

/-- The inputs of one tick: the `evaluate` call, and the fate of its write. -/
structure Tick (K : Type*) where
  call : RiskCall K
  writeAccepted : Bool
  writtenAt : Timestamp

/-- The monitor of a running session and the stored row of its pool. -/
structure Session (K : Type*) where
  monitor : RiskMonitor K
  row : RiskRow K
deriving DecidableEq

/-- The fields whose change triggers a write. -/
def durable (st : RiskState K) : K × Bool × Bool × Bool :=
  (st.peakPnl, st.pauseFlag, st.haltFlag, st.operatorPause)

/-- Whether the action ends the tick before the rebalance decision. -/
def haltTick : RiskAction K → Bool
  | .haltAll _ => true
  | .pauseRebalancing _ => true
  | .resumeRebalancing _ => false
  | .closeDriftHedge _ => false
  | .continue => false

/-- The risk gate: `before`, `evaluate`, compare, persist on change. -/
def riskGate (s : Session K) (t : Tick K) : Session K × Bool :=
  let before := durable s.monitor.state
  let (monitor, action) := s.monitor.call t.call
  let changed := durable monitor.state ≠ before
  -- a refused write is logged and dropped
  let row := if changed ∧ t.writeAccepted then s.row.persistState monitor.state t.writtenAt
    else s.row
  (⟨monitor, row⟩, haltTick action)

/-- The session after its first `n` ticks. -/
def sessionAfter (s : Session K) (ticks : List (Tick K)) (n : ℕ) : Session K :=
  after (fun s t => (riskGate s t).1) s ticks n

theorem sessionAfter_succ (s : Session K) (ticks : List (Tick K)) (n : ℕ)
    (inside : n < ticks.length) :
    sessionAfter s ticks (n + 1) = (riskGate (sessionAfter s ticks n) ticks[n]).1 :=
  after_succ _ s ticks n inside

/-- The monitor does not depend on the database. -/
theorem sessionAfter_monitor (s : Session K) (ticks : List (Tick K)) (n : ℕ) :
    (sessionAfter s ticks n).monitor = monitorAfter s.monitor (ticks.map Tick.call) n :=
  Machine.after_view _ Session.monitor Tick.call _ (fun _ _ => rfl) s ticks n

/-! ### The stored halt -/

/-- A tick that leaves the durable fields alone writes nothing. -/
theorem riskGate_unchanged (s : Session K) (t : Tick K)
    (same : durable (riskGate s t).1.monitor.state = durable s.monitor.state) :
    (riskGate s t).1.row = s.row := by
  have unchanged : ¬ (durable (s.monitor.call t.call).1.state ≠ durable s.monitor.state ∧
      t.writeAccepted = true) := fun moved => moved.1 same
  simp only [riskGate, unchanged, if_false]

/-- A tick stores a halt only if the monitor is halted after it. -/
theorem riskGate_halted (s : Session K) (t : Tick K) (stored : (riskGate s t).1.row.Halted) :
    s.row.Halted ∨ (riskGate s t).1.monitor.state.haltFlag = true := by
  simp only [riskGate] at stored ⊢
  split at stored
  · exact Or.inr ((RiskRow.persistState_halted _ _ _).mp stored)
  · exact Or.inl stored

/-- The tick on which the halt is latched stores it exactly when its write is accepted. -/
theorem riskGate_latch (s : Session K) (t : Tick K) (active : s.monitor.state.haltFlag = false)
    (latched : (riskGate s t).1.monitor.state.haltFlag = true) (clear : ¬ s.row.Halted) :
    (riskGate s t).1.row.Halted ↔ t.writeAccepted = true := by
  -- the halt is one of the compared fields, so latching it is a change
  have changed : durable (s.monitor.call t.call).1.state ≠ durable s.monitor.state := by
    intro same
    have flags := congrArg (fun d => d.2.2.1) same
    simp only [durable] at flags
    rw [active] at flags
    exact Bool.false_ne_true (flags.symm.trans latched)
  cases accepted : t.writeAccepted with
  | true =>
    simp only [riskGate, accepted, changed, ne_eq, not_false_eq_true, and_self, if_true,
      RiskRow.persistState_halted, iff_true]
    exact latched
  | false => simpa [riskGate, accepted] using clear

/-- Once halted, the monitor's durable fields never change, so the row is never written again. -/
theorem row_after_halt (s : Session K) (ticks : List (Tick K)) (m n : ℕ) (later : m ≤ n)
    (inside : n ≤ ticks.length)
    (halted : (sessionAfter s ticks m).monitor.state.haltFlag = true) :
    (sessionAfter s ticks n).monitor.state.haltFlag = true ∧
      (sessionAfter s ticks n).row = (sessionAfter s ticks m).row := by
  induction n, later using Nat.le_induction with
  | base => exact ⟨halted, rfl⟩
  | succ n _ ih =>
    have bound : n < ticks.length := inside
    obtain ⟨still, row⟩ := ih bound.le
    -- a halted monitor only moves its timestamp, which is not compared
    have call := RiskMonitor.evaluate_halted (sessionAfter s ticks n).monitor
      ticks[n].call.snap ticks[n].call.driftMarginRatio ticks[n].call.now still
    have monitor : (riskGate (sessionAfter s ticks n) ticks[n]).1.monitor =
        (sessionAfter s ticks n).monitor.touch ticks[n].call.now := congrArg Prod.fst call
    rw [sessionAfter_succ s ticks n bound, riskGate_unchanged _ _ (by rw [monitor]; rfl), monitor]
    exact ⟨still, row⟩

/-- As long as the monitor is active, nothing this session wrote carries a halt. -/
theorem row_before_halt (s : Session K) (ticks : List (Tick K)) (clear : ¬ s.row.Halted) (n : ℕ)
    (inside : n ≤ ticks.length)
    (active : (sessionAfter s ticks n).monitor.state.haltFlag = false) :
    ¬ (sessionAfter s ticks n).row.Halted := by
  induction n with
  | zero => exact clear
  | succ n ih =>
    have bound : n < ticks.length := inside
    -- the halt never goes away, so the tick before was active as well
    have before : (sessionAfter s ticks n).monitor.state.haltFlag = false := by
      by_contra halted
      have still := (row_after_halt s ticks n (n + 1) (by omega) inside (by simpa using halted)).1
      rw [still] at active
      exact Bool.false_ne_true active.symm
    intro stored
    rw [sessionAfter_succ s ticks n bound] at stored active
    rcases riskGate_halted _ _ stored with old | latched
    · exact ih bound.le before old
    · rw [latched] at active
      exact Bool.false_ne_true active.symm

end TickLiq.Watch
