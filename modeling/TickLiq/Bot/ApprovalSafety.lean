import TickLiq.Bot.ApprovalInvariant

/-!
# Approval safety

A wait for a proposal ends with `true` only after an authorised `/approve` run
that named the proposal's ID took it out of the slot, and no other run ever had
it. A proposal whose message could not be sent is never submitted.
-/
namespace TickLiq.Bot.Approval

open Machine (run run_history Occurs occurs_concat not_occurs_nil)

variable {seed : ℕ} {paused : Bool} {bot : BotState} {s t : Approval} {e : Event}

/-- In the run, handler run `h` took `p` out of the slot. -/
def Took (bot : BotState) (start : Approval) (events : List Event) (h : ℕ) (p : PendingApproval) :
    Prop :=
  Occurs (step bot) start events fun s e => Takes bot s e h p

/-- In the run, `p` was proposed. -/
def Proposed (bot : BotState) (start : Approval) (events : List Event) (p : PendingApproval) :
    Prop :=
  Occurs (step bot) start events fun s e => e = .propose ∧ p = ⟨s.nextProposalId, s.issued⟩

/-- In the run, sending the message for `p` failed. -/
def SendFailed (bot : BotState) (start : Approval) (events : List Event) (p : PendingApproval) :
    Prop :=
  Occurs (step bot) start events fun s e => e = .sendErr ∧ s.processor = .sending p

theorem owns_iff_took {events : List Event}
    (played : run (step bot) (initial seed paused) events = some t) (h : ℕ)
    (p : PendingApproval) : t.Owns h p ↔ Took bot (initial seed paused) events h p := by
  refine run_history (step bot) (initial seed paused)
    (fun events t => t.Owns h p ↔ Took bot (initial seed paused) events h p) ?_ ?_ events t played
  · exact iff_of_false (by rintro ⟨⟩) (not_occurs_nil _ _ _)
  · intro es u e v before soFar moved
    -- hands change by takings only
    rw [owns_step (step_moves moved), soFar]
    exact (occurs_concat _ _ u _ _ _ before).symm

theorem proposed_id {events : List Event}
    (played : run (step bot) (initial seed paused) events = some t) (p : PendingApproval)
    (proposed : Proposed bot (initial seed paused) events p) : p.id = proposalId seed p.tx := by
  obtain ⟨before, _, _, u, rfl, reached, rfl, rfl⟩ := proposed
  exact (wired_run reached).next_id

/-- Two proposals share an ID only when the counter has gone round in between. -/
theorem proposalId_eq {m n : ℕ} (same : proposalId seed m = proposalId seed n) :
    m = n ∨ m + 2 ^ 64 ≤ n ∨ n + 2 ^ 64 ≤ m := by
  simp only [proposalId] at same
  omega

/-- The event that ends a wait with `true` finds the proposal in some run's hands. -/
theorem waited_true_owned (wired : Wired seed s) (moved : Moves bot s e t) (p : PendingApproval)
    (waiting : s.processor ≠ .waited p true) (returned : t.processor = .waited p true) :
    ∃ h, s.Owns h p := by
  cases moved with
  | received q approved phase value =>
    cases returned
    -- a value on the channel was put there by a run that confirmed a proposal of that channel
    obtain ⟨-, h, q, same, confirmed⟩ := wired.sent_confirmed p.tx true value
    have current : s.processor.current = some p := by rw [phase]; rfl
    have equal : q = p := wired.owned_current confirmed.owns current same
    exact ⟨h, equal ▸ confirmed.owns⟩
  | taken | missed | accepted | late | operator => exact absurd returned waiting
  | _ => cases returned

/-! ### Failed sends -/

/-- On the way out after a proposal that was not approved. -/
def Processor.Failing : Processor → Prop
  | .sendFailed _ => True
  | .sendCleared _ => True
  | .decided _ false => True
  | _ => False

theorem current_step (moved : Moves bot s e t) (p : PendingApproval)
    (current : t.processor.current = some p) :
    s.processor.current = some p ∨ p.tx = s.issued := by
  cases moved with
  | propose =>
    obtain rfl := Option.some.inj current
    exact Or.inr rfl
  | gate | hold | submit | skip => cases current
  | taken | missed | accepted | late | operator => exact Or.inl current
  | clearFailed _ phase | clear _ _ phase | sendOk _ phase | sendErr _ phase | dropFailed _ phase
  | received _ _ phase | closed _ phase | elapse _ phase | dropElapsed _ phase =>
    rw [phase]
    exact Or.inl current

theorem failing_step (moved : Moves bot s e t) (failing : Processor.Failing s.processor) :
    Processor.Failing t.processor ∨ t.processor.current = none := by
  cases moved with
  | taken | missed | accepted | late | operator => exact Or.inl failing
  | clearFailed | dropFailed => exact Or.inl trivial
  | skip => exact Or.inr rfl
  -- none of these starts on the way out
  | gate phase | hold phase | propose phase | sendOk _ phase | sendErr _ phase | clear _ _ phase
  | received _ _ phase | closed _ phase | elapse _ phase | dropElapsed _ phase | submit _ phase =>
    rw [phase] at failing
    exact absurd failing (by simp [Processor.Failing])

/-- A submitted proposal is behind the processor, and so is a failed one, or it
is on its way out. -/
structure Traced (bot : BotState) (start : Approval) (events : List Event) (t : Approval) :
    Prop where
  submitted_past : ∀ c, Event.submit c ∈ events →
    c < t.issued ∧ ∀ p, t.processor.current = some p → p.tx ≠ c
  failed_past : ∀ p, SendFailed bot start events p →
    p.tx < t.issued ∧ (∀ q, t.processor.current = some q → q.tx = p.tx →
      Processor.Failing t.processor)
  failed_unsubmitted : ∀ p, SendFailed bot start events p → Event.submit p.tx ∉ events

private theorem submitted_past_step {start : Approval} {events : List Event}
    (wired : Wired seed s) (traced : Traced bot start events s) (moved : Moves bot s e t) (c : ℕ)
    (submitted : Event.submit c ∈ events ++ [e]) :
    c < t.issued ∧ ∀ p, t.processor.current = some p → p.tx ≠ c := by
  have more := issued_mono moved
  rcases List.mem_append.mp submitted with earlier | now
  · obtain ⟨old, past⟩ := traced.submitted_past c earlier
    refine ⟨by omega, fun p current => ?_⟩
    rcases current_step moved p current with same | new
    · exact past p same
    · omega
  · obtain rfl := List.mem_singleton.mp now
    -- the submission itself sets the processor idle
    cases moved with
    | submit p phase =>
      have newest := (wired.current_newest p (by rw [phase]; rfl)).1
      refine ⟨?_, by rintro _ ⟨⟩⟩
      show p.tx < s.issued
      omega

private theorem failed_past_step {start : Approval} {events : List Event}
    (wired : Wired seed s) (traced : Traced bot start events s) (moved : Moves bot s e t)
    (p : PendingApproval)
    (failed : SendFailed bot start events p ∨ (e = .sendErr ∧ s.processor = .sending p)) :
    p.tx < t.issued ∧ (∀ q, t.processor.current = some q → q.tx = p.tx →
      Processor.Failing t.processor) := by
  have more := issued_mono moved
  rcases failed with earlier | ⟨rfl, phase⟩
  · obtain ⟨old, out⟩ := traced.failed_past p earlier
    refine ⟨by omega, fun q current same => ?_⟩
    -- still at work on it, so it is on its way out; a newer proposal has another channel
    rcases current_step moved q current with kept | new
    · rcases failing_step moved (out q kept same) with failing | gone
      · exact failing
      · rw [gone] at current
        cases current
    · omega
  · have newest := (wired.current_newest p (by rw [phase]; rfl)).1
    cases moved with
    | sendErr q phase' =>
      refine ⟨?_, fun _ _ _ => trivial⟩
      show p.tx < s.issued
      omega

private theorem failed_unsubmitted_step {start : Approval} {events : List Event}
    (traced : Traced bot start events s) (moved : Moves bot s e t) (p : PendingApproval)
    (failed : SendFailed bot start events p ∨ (e = .sendErr ∧ s.processor = .sending p)) :
    Event.submit p.tx ∉ events ++ [e] := by
  intro submitted
  rcases failed with earlier | ⟨rfl, phase⟩
  · rcases List.mem_append.mp submitted with before | now
    · exact traced.failed_unsubmitted p earlier before
    · generalize tx : p.tx = c at now
      obtain rfl := List.mem_singleton.mp now
      -- only an approved proposal is submitted, and a failed one is not approved
      cases moved with
      | submit q phase =>
        have failing := (traced.failed_past p earlier).2 q (by rw [phase]; rfl) tx.symm
        rw [phase] at failing
        exact failing
  · rcases List.mem_append.mp submitted with before | now
    · exact (traced.submitted_past p.tx before).2 p (by rw [phase]; rfl) rfl
    · cases List.mem_singleton.mp now

theorem traced_run {events : List Event}
    (played : run (step bot) (initial seed paused) events = some t) :
    Traced bot (initial seed paused) events t := by
  refine run_history (step bot) (initial seed paused) (Traced bot (initial seed paused))
    ?_ ?_ events t played
  · exact ⟨by rintro c ⟨⟩, fun p failed => absurd failed (not_occurs_nil _ _ _),
      fun p failed => absurd failed (not_occurs_nil _ _ _)⟩
  · intro es u e v before traced moved
    have wired := wired_run before
    have moves := step_moves moved
    refine ⟨submitted_past_step wired traced moves, fun p failed => ?_, fun p failed => ?_⟩
    · exact failed_past_step wired traced moves p ((occurs_concat _ _ u _ _ _ before).mp failed)
    · exact failed_unsubmitted_step traced moves p ((occurs_concat _ _ u _ _ _ before).mp failed)

/-! ### The whole -/

/-- What approval safety means for a run from `start` to `t`. -/
structure Safe (bot : BotState) (start : Approval) (events : List Event) (t : Approval) :
    Prop where
  /-- Only the proposal the processor works on is pending, and only one receiver exists. -/
  one_pending : (∀ p, t.slot = some p → t.processor.exposed = some p) ∧
    ∀ c d, (t.channel c).receiverLive = true → (t.channel d).receiverLive = true → c = d
  /-- A wait that ends with `true` was preceded by an authorised `/approve` of this very
  proposal while it was in the slot. -/
  approved_by_taker : ∀ e u p, step bot t e = some u → t.processor ≠ .waited p true →
    u.processor = .waited p true → ∃ h, Took bot start events h p
  one_taker : ∀ h k p q, Took bot start events h p → Took bot start events k q → p.tx = q.tx →
    h = k ∧ p = q
  /-- IDs repeat only after `2^64` proposals. -/
  ids_distinct : ∀ p q, Proposed bot start events p → Proposed bot start events q → p.id = q.id →
    p = q ∨ p.tx + 2 ^ 64 ≤ q.tx ∨ q.tx + 2 ^ 64 ≤ p.tx
  failed_unsubmitted : ∀ p, SendFailed bot start events p → Event.submit p.tx ∉ events

theorem approval_safe (bot : BotState) (seed : ℕ) (paused : Bool) (events : List Event)
    (t : Approval) (played : run (step bot) (initial seed paused) events = some t) :
    Safe bot (initial seed paused) events t := by
  have wired := wired_run played
  refine ⟨⟨wired.slot_exposed, fun c d first second => ?_⟩, fun e u p moved waiting returned => ?_,
    fun h k p q first second same => ?_, fun p q first second same => ?_,
    (traced_run played).failed_unsubmitted⟩
  · -- two live receivers would both be the processor's
    have left := (wired.receiver_live c).mp first
    have right := (wired.receiver_live d).mp second
    exact Option.some.inj (left.symm.trans right)
  · obtain ⟨h, owned⟩ := waited_true_owned wired (step_moves moved) p waiting returned
    exact ⟨h, (owns_iff_took played h p).mp owned⟩
  · -- what two runs took from one channel is in the hands of both
    have owned := (owns_iff_took played h p).mpr first
    have owned' := (owns_iff_took played k q).mpr second
    obtain rfl := wired.owner_unique h k p q owned owned' same
    exact ⟨rfl, Option.some.inj (owned.symm.trans owned')⟩
  · have left := proposed_id played p first
    have right := proposed_id played q second
    rcases proposalId_eq (left.symm.trans (same.trans right)) with equal | apart
    · exact Or.inl (proposal_eq left right equal)
    · exact Or.inr apart

def approvedRun : List Event :=
  [.gate, .propose, .sendOk, .approve 0 ⟨7, some 2⟩ "41", .approve 1 ⟨7, some 1⟩ "40",
    .approve 2 ⟨7, some 1⟩ " 41", .approveSend 2]

theorem approval_safe_sample :
    ∃ t, run (step sampleBot) (initial 41 false) approvedRun = some t ∧
      Safe sampleBot (initial 41 false) approvedRun t := by
  have played : (run (step sampleBot) (initial 41 false) approvedRun).isSome := by decide +kernel
  obtain ⟨t, reached⟩ := Option.isSome_iff_exists.mp played
  exact ⟨t, reached, approval_safe sampleBot 41 false approvedRun t reached⟩

end TickLiq.Bot.Approval
