import TickLiq.Bot.Approval

/-!
# Submissions and the operator pause

The pause is looked at once per tick, before the proposal is sent. A `/pause`
that completes while the processor waits for the approval does not reach the
submission, so whether a submission happens under a pause is decided by the last
command since the gate.
-/
namespace TickLiq.Bot.Approval

open Machine (run run_split run_history)

variable {bot : BotState} {s t : Approval} {e : Event}

/-- Whether the last command since the last passed gate was a pause. -/
def pausedSinceGate (events : List Event) : Bool :=
  events.foldl (fun paused e =>
    match e with
    | .gate => false
    | .operator b => b
    | _ => paused) false

/-- Every submission happens while the operator pause is off. -/
def SubmitsUnpaused (bot : BotState) (start : Approval) (events : List Event) : Prop :=
  ∀ before tx after u, events = before ++ .submit tx :: after →
    run (step bot) start before = some u → u.operatorPause = false

private theorem pausedSinceGate_step (moved : Moves bot s e t) (events : List Event)
    (soFar : s.processor ≠ .idle → s.operatorPause = pausedSinceGate events)
    (busy : t.processor ≠ .idle) : t.operatorPause = pausedSinceGate (events ++ [e]) := by
  rw [pausedSinceGate, List.foldl_append]
  cases moved with
  | gate _ resumed => exact resumed
  | operator paused => rfl
  | hold | submit | skip => exact absurd rfl busy
  | taken | missed | accepted | late => exact soFar busy
  | propose phase | clearFailed _ phase | clear _ _ phase | sendOk _ phase | sendErr _ phase
  | dropFailed _ phase | received _ _ phase | closed _ phase | elapse _ phase
  | dropElapsed _ phase =>
    apply soFar
    rw [phase]
    rintro ⟨⟩

/-- Between the gate and the end of the tick the pause is what the last command made it. -/
theorem operatorPause_eq_pausedSinceGate {seed : ℕ} {paused : Bool} {events : List Event}
    (played : run (step bot) (initial seed paused) events = some t)
    (busy : t.processor ≠ .idle) : t.operatorPause = pausedSinceGate events := by
  refine run_history (step bot) (initial seed paused) (fun events t =>
    t.processor ≠ .idle → t.operatorPause = pausedSinceGate events) ?_ ?_ events t played busy
  · intro idle
    exact absurd rfl idle
  · intro es u e v _ soFar moved
    exact pausedSinceGate_step (step_moves moved) es soFar

/-- No submission of the run happens under a pause exactly if at each of them the
last command since the gate was not a pause. -/
theorem submits_unpaused_iff (bot : BotState) (seed : ℕ) (paused : Bool) (events : List Event)
    (t : Approval) (played : run (step bot) (initial seed paused) events = some t) :
    SubmitsUnpaused bot (initial seed paused) events ↔
      ∀ before tx after, events = before ++ .submit tx :: after →
        pausedSinceGate before = false := by
  -- the state in which a submission happens is past the gate
  have atSubmit : ∀ before tx after u, events = before ++ .submit tx :: after →
      run (step bot) (initial seed paused) before = some u →
        u.operatorPause = pausedSinceGate before := by
    rintro before tx after u rfl reached
    obtain ⟨u', v, reached', moved, -⟩ := (run_split _ _ _ _ _ _).mp played
    obtain rfl := Option.some.inj (reached.symm.trans reached')
    apply operatorPause_eq_pausedSinceGate reached
    cases step_moves moved with
    | submit p phase =>
      rw [phase]
      rintro ⟨⟩
  constructor
  · rintro unpaused before tx after rfl
    obtain ⟨u, v, reached, -, -⟩ := (run_split _ _ _ _ _ _).mp played
    rw [← atSubmit before tx after u rfl reached]
    exact unpaused before tx after u rfl reached
  · intro clear before tx after u split reached
    rw [atSubmit before tx after u split reached]
    exact clear before tx after split

/-- Proposed, approved and submitted; `during` happens while the operator is asked. -/
def submittedRun (during : List Event) : List Event :=
  [.gate, .propose, .sendOk] ++ during ++
    [.approve 0 ⟨7, some 1⟩ "41", .approveSend 0, .receive, .clear, .submit 0]

theorem submits_unpaused_resumed :
    ∃ t, run (step sampleBot) (initial 41 false)
        (submittedRun [.operator true, .operator false]) = some t ∧
      (SubmitsUnpaused sampleBot (initial 41 false)
          (submittedRun [.operator true, .operator false]) ↔
        ∀ before tx after,
          submittedRun [.operator true, .operator false] = before ++ .submit tx :: after →
            pausedSinceGate before = false) := by
  have played : (run (step sampleBot) (initial 41 false)
      (submittedRun [.operator true, .operator false])).isSome := by decide +kernel
  obtain ⟨t, reached⟩ := Option.isSome_iff_exists.mp played
  exact ⟨t, reached, submits_unpaused_iff sampleBot 41 false _ t reached⟩

/-- A `/pause` while the proposal is pending does not stop it. -/
theorem submitted_while_paused :
    (∃ t, run (step sampleBot) (initial 41 false) (submittedRun [.operator true]) = some t) ∧
      ¬ SubmitsUnpaused sampleBot (initial 41 false) (submittedRun [.operator true]) := by
  have played : (run (step sampleBot) (initial 41 false)
      (submittedRun [.operator true])).isSome := by decide +kernel
  refine ⟨Option.isSome_iff_exists.mp played, fun unpaused => ?_⟩
  have held : (run (step sampleBot) (initial 41 false)
      ((submittedRun [.operator true]).take 8)).map Approval.operatorPause = some true := by
    decide +kernel
  obtain ⟨u, reached, pausedThen⟩ := Option.map_eq_some_iff.mp held
  have clear := unpaused ((submittedRun [.operator true]).take 8) 0 [] u rfl reached
  rw [pausedThen] at clear
  cases clear

end TickLiq.Bot.Approval
