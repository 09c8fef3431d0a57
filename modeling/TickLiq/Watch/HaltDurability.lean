import TickLiq.Watch.RiskGate

/-!
# Durability of the drawdown halt

The halt is written on the tick that latches it and never again: afterwards
nothing durable changes, so a refused write is not retried. A session therefore
keeps its halt across a restart exactly when the write of that one tick went
through, or when no later tick could have made up for it.
-/
namespace TickLiq.Watch

open RiskMonitor (FirstBreach sampleMonitor)
open RiskRow (startSession)

variable {K : Type*} [Field K] [LinearOrder K]

/-- A halt latched on tick `i` is stored from the end of any later tick whose
writes are accepted, and every restart from that row comes up halted. -/
def HaltDurable (s : Session K) (ticks : List (Tick K)) : Prop :=
  ∀ i, (sessionAfter s ticks i).monitor.state.haltFlag = false →
    (sessionAfter s ticks (i + 1)).monitor.state.haltFlag = true →
    ∀ j, ∀ inside : j < ticks.length, i < j → ticks[j].writeAccepted = true →
    ∀ n ≤ ticks.length, j < n → (sessionAfter s ticks n).row.Halted ∧
      ∀ poolAddress now,
        (startSession (sessionAfter s ticks n).row poolAddress now).1.haltFlag = true

/-- The write of the first breaching tick is accepted, or no later one is. -/
def BreachWritten (s : Session K) (ticks : List (Tick K)) : Prop :=
  ∀ h, FirstBreach s.monitor (ticks.map Tick.call) h → ∀ found : h < ticks.length,
    ticks[h].writeAccepted = true ∨
      ∀ j, ∀ inside : j < ticks.length, h < j → ticks[j].writeAccepted = false

theorem halted_iff_firstBreach (s : Session K) (ticks : List (Tick K))
    (active : s.monitor.state.haltFlag = false) (n : ℕ) (inside : n ≤ ticks.length) :
    (sessionAfter s ticks n).monitor.state.haltFlag = true ↔
      ∃ h < n, FirstBreach s.monitor (ticks.map Tick.call) h := by
  rw [sessionAfter_monitor]
  exact RiskMonitor.halted_iff_breach s.monitor _ active n (by simpa using inside)

/-- The monitor latches its halt on exactly the first breaching tick. -/
theorem latch_iff_firstBreach (s : Session K) (ticks : List (Tick K))
    (active : s.monitor.state.haltFlag = false) (i : ℕ) (inside : i < ticks.length) :
    ((sessionAfter s ticks i).monitor.state.haltFlag = false ∧
      (sessionAfter s ticks (i + 1)).monitor.state.haltFlag = true) ↔
      FirstBreach s.monitor (ticks.map Tick.call) i := by
  have now := halted_iff_firstBreach s ticks active i inside.le
  have next := halted_iff_firstBreach s ticks active (i + 1) inside
  constructor
  · rintro ⟨alive, halted⟩
    obtain ⟨h, before, first⟩ := next.mp halted
    -- the breach lies before tick `i + 1`, and not before tick `i`
    rcases (Nat.lt_succ_iff.mp before).eq_or_lt with rfl | earlier
    · exact first
    · have already := now.mpr ⟨h, earlier, first⟩
      rw [alive] at already
      exact absurd already Bool.false_ne_true
  · intro first
    refine ⟨?_, next.mpr ⟨i, Nat.lt_succ_self i, first⟩⟩
    by_contra halted
    obtain ⟨h, earlier, other⟩ := now.mp (by simpa using halted)
    exact first.2 h earlier other.1

/-- After the halting tick the row holds the halt exactly if that tick's write was accepted. -/
theorem stored_iff_accepted (s : Session K) (ticks : List (Tick K))
    (active : s.monitor.state.haltFlag = false) (clear : ¬ s.row.Halted) (h : ℕ)
    (first : FirstBreach s.monitor (ticks.map Tick.call) h) (found : h < ticks.length) (n : ℕ)
    (later : h < n) (inside : n ≤ ticks.length) :
    (sessionAfter s ticks n).row.Halted ↔ ticks[h].writeAccepted = true := by
  obtain ⟨alive, latched⟩ := (latch_iff_firstBreach s ticks active h found).mpr first
  have kept := (row_after_halt s ticks (h + 1) n later inside latched).2
  rw [kept, sessionAfter_succ s ticks h found]
  apply riskGate_latch _ _ alive
  · rwa [← sessionAfter_succ s ticks h found]
  · exact row_before_halt s ticks clear h found.le alive

/-- A session's halt is durable exactly when the write of the first breaching
tick was accepted or no later write was. -/
theorem halt_durable_iff (s : Session K) (ticks : List (Tick K))
    (active : s.monitor.state.haltFlag = false) (clear : ¬ s.row.Halted) :
    HaltDurable s ticks ↔ BreachWritten s ticks := by
  constructor
  · intro durable h first found
    obtain ⟨alive, latched⟩ := (latch_iff_firstBreach s ticks active h found).mpr first
    cases refused : ticks[h].writeAccepted with
    | true => exact Or.inl rfl
    | false =>
      right
      intro j inside later
      by_contra accepted
      -- an accepted later tick would have to show the halt
      have stored := (durable h alive latched j inside later (by simpa using accepted) (j + 1)
        inside (Nat.lt_succ_self j)).1
      rw [stored_iff_accepted s ticks active clear h first found (j + 1) (by omega) inside,
        refused] at stored
      exact Bool.false_ne_true stored
  · intro written i alive latched j inside later accepted n bound after
    have first := (latch_iff_firstBreach s ticks active i (by omega)).mp ⟨alive, latched⟩
    -- the tick `j` rules the second alternative out
    have acceptedHere : ticks[i].writeAccepted = true := by
      rcases written i first (by omega) with here | refused
      · exact here
      · have refusedLater := refused j inside later
        rw [accepted] at refusedLater
        cases refusedLater
    have stored : (sessionAfter s ticks n).row.Halted :=
      (stored_iff_accepted s ticks active clear i first (by omega) n (by omega) bound).mpr
        acceptedHere
    exact ⟨stored, fun poolAddress now =>
      (RiskRow.startSession_haltFlag _ poolAddress now).mpr stored⟩

/-- A session that starts from its stored, unhalted row. -/
def sampleSession : Session ℚ := ⟨sampleMonitor, some sampleMonitor.state⟩

/-- A profit, a 20 % drawdown, and one more tick; `accepted` says whether the
database takes the write of the drawdown tick. -/
def drawdownTicks (accepted : Bool) : List (Tick ℚ) :=
  [⟨⟨⟨0, 100, 1000⟩, none, 1⟩, true, 1⟩, ⟨⟨⟨0, 80, 1000⟩, none, 2⟩, accepted, 2⟩,
    ⟨⟨⟨0, 80, 1000⟩, none, 3⟩, true, 3⟩]

theorem halt_durable_iff_drawdown :
    sampleSession.monitor.state.haltFlag = false ∧ ¬ sampleSession.row.Halted ∧
      (HaltDurable sampleSession (drawdownTicks true) ↔
        BreachWritten sampleSession (drawdownTicks true)) :=
  ⟨rfl, by decide, halt_durable_iff sampleSession (drawdownTicks true) rfl (by decide)⟩

/-- One refused write on the drawdown tick, and the next accepted tick does not store the halt. -/
theorem refused_halt_is_lost :
    sampleSession.monitor.state.haltFlag = false ∧ ¬ sampleSession.row.Halted ∧
      ¬ HaltDurable sampleSession (drawdownTicks false) := by
  refine ⟨rfl, by decide, fun durable => ?_⟩
  have stored := (durable 1 (by decide +kernel) (by decide +kernel) 2 (by decide) (by decide) rfl 3
    (by decide) (by decide)).1
  exact absurd stored (by decide +kernel)

end TickLiq.Watch
