import TickLiq.Bot.ApprovalSafety

/-!
# A confirmed approval and its execution

A handler confirms as soon as its send on the channel goes through, and that only
says that the receiver still exists. The processor keeps the receiver for a while
after it has given up on a proposal: until a failed send is cleaned up, and
between the timer and the drop. A confirmation is followed by `guard.submit`
exactly when it does not fall into one of these windows, and the message is not
reported as failed after the approval went through.
-/
namespace TickLiq.Bot.Approval

open Machine (Oneshot run run_cons_some run_append_some run_history Guarded guarded_concat)

variable {seed : ℕ} {paused : Bool} {bot : BotState} {s t : Approval} {e : Event}

/-- Some handler has answered that `p` is approved and being executed. -/
def Confirmed (s : Approval) (p : PendingApproval) : Prop := ∃ h, s.ConfirmedBy h p

/-- The processor is on its way to the submission of `p`. -/
def Heading (s : Approval) (p : PendingApproval) : Prop :=
  s.processor = .sending p ∨ s.processor = .awaiting p ∨ s.processor = .waited p true ∨
    s.processor = .decided p true

def Executes (events : List Event) (s : Approval) (p : PendingApproval) : Prop :=
  .submit p.tx ∈ events ∨ s.Heading p

/-- No send fails that was answered by an approval already, and no approval comes
through after the processor has given up on the proposal. -/
def Timely (s : Approval) : Event → Prop
  | .sendErr => ∀ p, s.processor = .sending p → (s.channel p.tx).sent = none
  | .approveSend h => ∀ p, s.approveRun h = .matched p →
      s.processor ≠ .sendFailed p ∧ s.processor ≠ .sendCleared p ∧ s.processor ≠ .elapsed p
  | _ => True

theorem confirmed_sent (wired : Wired seed s) {p : PendingApproval} (confirmed : s.Confirmed p) :
    (s.channel p.tx).sent = some true := by
  obtain ⟨h, byH⟩ := confirmed
  exact wired.confirmed_sent h p byH

/-- A proposal with a confirmation stays on its way through every timely step. -/
private theorem executes_kept (wired : Wired seed s) (moved : Moves bot s e t)
    (timely : Timely s e) {events : List Event} {p : PendingApproval} (confirmed : s.Confirmed p)
    (executes : Executes events s p) : Executes (events ++ [e]) t p := by
  rcases executes with submitted | heading
  · exact Or.inl (List.mem_append_left _ submitted)
  have sent := confirmed_sent wired confirmed
  cases moved with
  | taken | missed | accepted | late | operator => exact Or.inr heading
  | sendOk q phase =>
    obtain rfl : q = p := by simpa [Heading, phase] using heading
    exact Or.inr (Or.inr (Or.inl rfl))
  -- a timely error finds the channel empty, and a confirmation has filled it
  | sendErr q phase =>
    obtain rfl : q = p := by simpa [Heading, phase] using heading
    have unsent := timely q phase
    rw [sent] at unsent
    cases unsent
  | received q approved phase value =>
    obtain rfl : q = p := by simpa [Heading, phase] using heading
    obtain rfl := Option.some.inj (value.symm.trans sent)
    exact Or.inr (Or.inr (Or.inr (Or.inl rfl)))
  -- with a value on the channel the wait neither closes nor elapses
  | closed q phase value | elapse q phase value =>
    obtain rfl : q = p := by simpa [Heading, phase] using heading
    rw [sent] at value
    cases value
  | clear q approved phase =>
    obtain ⟨rfl, rfl⟩ : q = p ∧ approved = true := by simpa [Heading, phase] using heading
    exact Or.inr (Or.inr (Or.inr (Or.inr rfl)))
  | submit q phase =>
    obtain rfl : q = p := by simpa [Heading, phase] using heading
    exact Or.inl (List.mem_append_right _ (List.mem_singleton.mpr rfl))
  | gate phase | hold phase | propose phase | clearFailed _ phase | dropFailed _ phase
  | dropElapsed _ phase | skip _ phase => simp [Heading, phase] at heading

/-- Nothing puts a confirmed proposal back on its way. -/
private theorem executes_back (wired : Wired seed s) (moved : Moves bot s e t)
    {events : List Event} {p : PendingApproval} (confirmed : s.Confirmed p)
    (executes : Executes (events ++ [e]) t p) : Executes events s p := by
  obtain ⟨h, byH⟩ := confirmed
  have old := (wired.owner_issued h p byH.owns).1
  rcases executes with submitted | heading
  · rcases List.mem_append.mp submitted with before | now
    · exact Or.inl before
    · generalize tx : p.tx = c at now
      obtain rfl := List.mem_singleton.mp now
      cases moved with
      | submit q phase =>
        obtain rfl := wired.owned_current byH.owns (by rw [phase]; rfl) tx
        exact Or.inr (Or.inr (Or.inr (Or.inr phase)))
  · right
    cases moved with
    | taken | missed | accepted | late | operator => exact heading
    | propose =>
      -- the new proposal has a new channel, and `p` is an old one
      have new : s.propose.processor = .sending ⟨s.nextProposalId, s.issued⟩ := rfl
      obtain rfl : PendingApproval.mk s.nextProposalId s.issued = p := by
        simpa [Heading, new] using heading
      exact absurd old (Nat.lt_irrefl _)
    | sendOk q phase =>
      obtain rfl : q = p := by simpa [Heading] using heading
      exact Or.inl phase
    | received q approved phase =>
      obtain ⟨rfl, rfl⟩ : q = p ∧ approved = true := by simpa [Heading] using heading
      exact Or.inr (Or.inl phase)
    | clear q approved phase =>
      obtain ⟨rfl, rfl⟩ : q = p ∧ approved = true := by simpa [Heading] using heading
      exact Or.inr (Or.inr (Or.inl phase))
    | _ => simp [Heading] at heading

/-- A timely confirmation finds the processor waiting for it. -/
private theorem executes_new (wired : Wired seed s) (timely : Timely s e) {h : ℕ}
    {p : PendingApproval} (confirms : Confirms s e h p) : s.Heading p := by
  obtain ⟨rfl, own, live⟩ := confirms
  obtain ⟨notFailed, notCleared, notElapsed⟩ := timely p own
  have held := (wired.receiver_live p.tx).mp live
  have owned : s.Owns h p := by
    rw [Owns, own]
    rfl
  -- the receiver is held by the proposal the processor works on, so that one is `p`
  cases phase : s.processor with
  | idle | gated | waited | decided =>
    rw [phase] at held
    cases held
  | sending q | awaiting q | sendFailed q | sendCleared q | elapsed q =>
    rw [phase] at held
    obtain rfl := wired.owned_current owned (q := q) (by rw [phase]; rfl)
      (Option.some.inj held).symm
    simp_all [Heading]

/-- An untimely step leaves a confirmed proposal that nobody executes. -/
private theorem lost_of_untimely (wired : Wired seed s) {start : Approval} {events : List Event}
    (traced : Traced bot start events s) (moved : Moves bot s e t) (untimely : ¬ Timely s e) :
    ∃ p, t.Confirmed p ∧ ¬ Executes (events ++ [e]) t p := by
  cases moved with
  | sendErr q phase =>
    -- the error comes after an approval was sent
    have answered : ∃ v, (s.channel q.tx).sent = some v := by
      by_contra unsent
      push Not at unsent
      refine untimely fun p phase' => ?_
      obtain rfl : q = p := by simpa [phase] using phase'
      exact Option.eq_none_iff_forall_ne_some.mpr unsent
    obtain ⟨v, sent⟩ := answered
    obtain ⟨-, h, p, same, byH⟩ := wired.sent_confirmed q.tx v sent
    have current : s.processor.current = some q := by rw [phase]; rfl
    obtain rfl := wired.owned_current byH.owns current same
    refine ⟨p, ⟨h, byH⟩, ?_⟩
    rintro (submitted | heading)
    · have before : Event.submit p.tx ∈ events := by simpa using submitted
      exact (traced.submitted_past p.tx before).2 p current rfl
    · simp [Heading] at heading
  | accepted h p own live =>
    -- the approval comes in one of the three windows
    have doomed : s.processor = .sendFailed p ∨ s.processor = .sendCleared p ∨
        s.processor = .elapsed p := by
      by_contra alive
      push Not at alive
      refine untimely fun q own' => ?_
      obtain rfl : p = q := by simpa [own] using own'
      exact alive
    have current : s.processor.current = some p := by
      rcases doomed with phase | phase | phase <;> rw [phase] <;> rfl
    refine ⟨p, ⟨h, by simp [ConfirmedBy]⟩, ?_⟩
    rintro (submitted | heading)
    · have before : Event.submit p.tx ∈ events := by simpa using submitted
      exact (traced.submitted_past p.tx before).2 p current rfl
    · rcases doomed with phase | phase | phase <;> simp [Heading, phase] at heading
  | late h p own dropped =>
    -- without a receiver the processor has left all three windows
    have gone : s.processor.receiver ≠ some p.tx := fun held =>
      absurd (((wired.receiver_live p.tx).mpr held).symm.trans dropped) (by decide)
    refine absurd (fun q own' => ?_) untimely
    obtain rfl : p = q := by simpa [own] using own'
    refine ⟨?_, ?_, ?_⟩ <;> intro phase <;> exact gone (by rw [phase]; rfl)
  | _ => exact absurd trivial untimely

theorem timely_iff_executes {events : List Event}
    (played : run (step bot) (initial seed paused) events = some t) :
    Guarded (step bot) Timely (initial seed paused) events ↔
      ∀ p, t.Confirmed p → Executes events t p := by
  refine run_history (step bot) (initial seed paused) (fun events t =>
    Guarded (step bot) Timely (initial seed paused) events ↔
      ∀ p, t.Confirmed p → Executes events t p) ?_ ?_ events t played
  · exact iff_of_true trivial (by rintro p ⟨h, ⟨⟩⟩)
  · intro es u e v before soFar moved
    have wired := wired_run before
    have moves := step_moves moved
    rw [guarded_concat _ _ _ u es e before, soFar]
    constructor
    · rintro ⟨all, timely⟩ p ⟨h, confirmed⟩
      rcases (confirmed_step moves h p).mp confirmed with old | new
      · exact executes_kept wired moves timely ⟨h, old⟩ (all p ⟨h, old⟩)
      · have heading := executes_new wired timely new
        obtain ⟨rfl, -, -⟩ := new
        cases moves with
        | accepted | late => exact Or.inr heading
    · -- backwards: executed at the end, so executed at each earlier point
      intro all
      refine ⟨fun p confirmed => ?_, ?_⟩
      · obtain ⟨h, byH⟩ := confirmed
        have still : v.Confirmed p := ⟨h, (confirmed_step moves h p).mpr (Or.inl byH)⟩
        exact executes_back wired moves ⟨h, byH⟩ (all p still)
      · by_contra untimely
        obtain ⟨p, confirmed, lost⟩ := lost_of_untimely wired (traced_run before) moves untimely
        exact lost (all p confirmed)

/-! ### The way to the submission -/

/-- The processor submits `p` by steps of its own, taken in this order. -/
def Submits (bot : BotState) (s : Approval) (p : PendingApproval) (steps : List Event) : Prop :=
  ∃ u, run (step bot) s (steps ++ [.submit p.tx]) = some u

theorem submits_decided {p : PendingApproval} (phase : s.processor = .decided p true) :
    Submits bot s p [] := by
  refine ⟨{ s with processor := .idle }, ?_⟩
  simp [run, step, phase]

theorem Submits.cons {p : PendingApproval} {steps : List Event} (moved : step bot s e = some t)
    (rest : Submits bot t p steps) : Submits bot s p (e :: steps) := by
  obtain ⟨u, played⟩ := rest
  exact ⟨u, (run_cons_some _ _ _ _ _).mpr ⟨t, moved, played⟩⟩

theorem submits_waited {p : PendingApproval} (phase : s.processor = .waited p true) :
    Submits bot s p [.clear] := by
  have moved : step bot s .clear =
      some { s.clearPending p.id with processor := .decided p true } := by
    simp only [step, phase]
  exact .cons moved (submits_decided rfl)

theorem submits_awaiting {p : PendingApproval} (phase : s.processor = .awaiting p)
    (sent : (s.channel p.tx).sent = some true) : Submits bot s p [.receive, .clear] := by
  have ready := (Oneshot.poll_ready (s.channel p.tx) true).mpr sent
  have moved : step bot s .receive =
      some { s.dropReceiver p.tx with processor := .waited p true } := by
    simp only [step, phase, receive, ready]
  exact .cons moved (submits_waited rfl)

theorem submits_sending {p : PendingApproval} (phase : s.processor = .sending p)
    (sent : (s.channel p.tx).sent = some true) : Submits bot s p [.sendOk, .receive, .clear] := by
  have moved : step bot s .sendOk = some { s with processor := .awaiting p } := by
    simp only [step, phase]
  exact .cons moved (submits_awaiting rfl sent)

/-- A run is timely exactly if each confirmed proposal has been submitted or is on
its way; and one that is on its way needs nothing but the processor's own steps. -/
theorem approval_executed_iff (bot : BotState) (seed : ℕ) (paused : Bool) (events : List Event)
    (t : Approval) (played : run (step bot) (initial seed paused) events = some t) :
    (Guarded (step bot) Timely (initial seed paused) events ↔
      ∀ p, t.Confirmed p → Executes events t p) ∧
    (∀ p, t.Confirmed p → t.Heading p →
      ∃ steps ∈ [[], [.clear], [.receive, .clear], [.sendOk, .receive, .clear]],
        Submits bot t p steps) := by
  refine ⟨timely_iff_executes played, fun p confirmed heading => ?_⟩
  have sent := confirmed_sent (wired_run played) confirmed
  rcases heading with phase | phase | phase | phase
  · exact ⟨_, by simp, submits_sending phase sent⟩
  · exact ⟨_, by simp, submits_awaiting phase sent⟩
  · exact ⟨_, by simp, submits_waited phase⟩
  · exact ⟨_, by simp, submits_decided phase⟩

theorem approval_executed_sample :
    ∃ t, run (step sampleBot) (initial 41 false) approvedRun = some t ∧ t.Confirmed ⟨41, 0⟩ ∧
      (Guarded (step sampleBot) Timely (initial 41 false) approvedRun ↔
        ∀ p, t.Confirmed p → Executes approvedRun t p) := by
  have confirmed : (run (step sampleBot) (initial 41 false) approvedRun).map
      (fun t => t.approveRun 2) = some (.replied (.approved ⟨41, 0⟩)) := by decide +kernel
  obtain ⟨t, reached, answer⟩ := Option.map_eq_some_iff.mp confirmed
  exact ⟨t, reached, ⟨2, answer⟩,
    (approval_executed_iff sampleBot 41 false approvedRun t reached).1⟩

/-- The message reaches the operator, who approves; then the call returns an error. -/
def failedSendRun : List Event :=
  [.gate, .propose, .approve 0 ⟨7, some 1⟩ "41", .approveSend 0, .sendErr, .clearFailed,
    .dropFailed, .skip]

/-- The operator is told that proposal 41 is being executed, and it never is. -/
theorem confirmed_not_executed :
    ∃ t, run (step sampleBot) (initial 41 false) failedSendRun = some t ∧ t.Confirmed ⟨41, 0⟩ ∧
      ∀ later u, run (step sampleBot) t later = some u →
        Event.submit 0 ∉ failedSendRun ++ later := by
  have confirmed : (run (step sampleBot) (initial 41 false) failedSendRun).map
      (fun t => t.approveRun 0) = some (.replied (.approved ⟨41, 0⟩)) := by decide +kernel
  obtain ⟨t, reached, answer⟩ := Option.map_eq_some_iff.mp confirmed
  refine ⟨t, reached, ⟨0, answer⟩, fun later u onward => ?_⟩
  have whole := (run_append_some _ _ _ _ _).mpr ⟨t, reached, onward⟩
  have sending : (run (step sampleBot) (initial 41 false) (failedSendRun.take 4)).map
      Approval.processor = some (.sending ⟨41, 0⟩) := by decide +kernel
  obtain ⟨v, before, phase⟩ := Option.map_eq_some_iff.mp sending
  exact (traced_run whole).failed_unsubmitted ⟨41, 0⟩
    ⟨failedSendRun.take 4, .sendErr, failedSendRun.drop 5 ++ later, v, rfl, before, rfl, phase⟩

end TickLiq.Bot.Approval
