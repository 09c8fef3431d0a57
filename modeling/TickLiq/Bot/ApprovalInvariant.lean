import TickLiq.Bot.Approval

/-!
# How slot, channel, processor and handlers fit together

`Wired` ties the four together and holds in every reachable state: only the
proposal the processor is working on can be in the slot or have a live receiver,
a proposal that a handler has taken is out of the slot for good and in no other
handler's hands, and a value has been sent on a channel exactly if some handler
confirmed that proposal.
-/
namespace TickLiq.Bot

open Machine (run Oneshot)

/-- The proposal the processor is working on. -/
def Processor.current : Processor → Option PendingApproval
  | .idle => none
  | .gated => none
  | .sending p => some p
  | .sendFailed p => some p
  | .sendCleared p => some p
  | .awaiting p => some p
  | .elapsed p => some p
  | .waited p _ => some p
  | .decided p _ => some p

/-- The same, as long as the slot has not been cleared. -/
def Processor.exposed : Processor → Option PendingApproval
  | .sending p => some p
  | .sendFailed p => some p
  | .awaiting p => some p
  | .elapsed p => some p
  | .waited p _ => some p
  | _ => none

/-- The channel whose receiver the processor holds. -/
def Processor.receiver : Processor → Option ℕ
  | .sending p => some p.tx
  | .sendFailed p => some p.tx
  | .sendCleared p => some p.tx
  | .awaiting p => some p.tx
  | .elapsed p => some p.tx
  | _ => none

theorem Processor.current_of_exposed {proc : Processor} {p : PendingApproval}
    (exposed : proc.exposed = some p) : proc.current = some p := by
  cases proc <;> first | exact exposed | cases exposed

namespace Approval

/-- The ID of the `n`-th proposal. -/
def proposalId (seed n : ℕ) : ℕ := (seed + n) % 2 ^ 64

/-- Handler run `h` has taken `p` out of the slot. -/
def Owns (s : Approval) (h : ℕ) (p : PendingApproval) : Prop := (s.approveRun h).proposal = some p

/-- Handler run `h` has told the operator that `p` is approved. -/
def ConfirmedBy (s : Approval) (h : ℕ) (p : PendingApproval) : Prop :=
  s.approveRun h = .replied (.approved p)

/-- The event takes `p` out of the slot for run `h`. -/
def Takes (bot : BotState) (s : Approval) (e : Event) (h : ℕ) (p : PendingApproval) : Prop :=
  ∃ msg idArg, e = .approve h msg idArg ∧ s.approveRun h = .received ∧ s.slot = some p ∧
    Authorizes bot msg idArg p.id

/-- The event lets run `h` send on the channel of `p` in time. -/
def Confirms (s : Approval) (e : Event) (h : ℕ) (p : PendingApproval) : Prop :=
  e = .approveSend h ∧ s.approveRun h = .matched p ∧ (s.channel p.tx).receiverLive = true

structure Wired (seed : ℕ) (s : Approval) : Prop where
  slot_exposed : ∀ p, s.slot = some p → s.processor.exposed = some p
  next_id : s.nextProposalId = proposalId seed s.issued
  current_newest : ∀ p, s.processor.current = some p →
    p.tx + 1 = s.issued ∧ p.id = proposalId seed p.tx
  receiver_live : ∀ c, (s.channel c).receiverLive = true ↔ s.processor.receiver = some c
  owner_issued : ∀ h p, s.Owns h p → p.tx < s.issued ∧ p.id = proposalId seed p.tx
  owner_removed : ∀ h p q, s.Owns h p → s.slot = some q → q.tx ≠ p.tx
  owner_unique : ∀ h k p q, s.Owns h p → s.Owns k q → p.tx = q.tx → h = k
  confirmed_sent : ∀ h p, s.ConfirmedBy h p → (s.channel p.tx).sent = some true
  sent_confirmed : ∀ c v, (s.channel c).sent = some v →
    v = true ∧ ∃ h p, p.tx = c ∧ s.ConfirmedBy h p

theorem ConfirmedBy.owns {s : Approval} {h : ℕ} {p : PendingApproval}
    (confirmed : s.ConfirmedBy h p) : s.Owns h p := by
  rw [ConfirmedBy] at confirmed
  rw [Owns, confirmed]
  rfl

/-- A channel is created for one proposal only. -/
theorem proposal_eq {seed : ℕ} {p q : PendingApproval} (left : p.id = proposalId seed p.tx)
    (right : q.id = proposalId seed q.tx) (same : p.tx = q.tx) : p = q := by
  have ids : p.id = q.id := by rw [left, right, same]
  cases p
  cases q
  exact congrArg₂ PendingApproval.mk ids same

theorem Wired.owned_current {seed : ℕ} {s : Approval} (wired : Wired seed s) {h : ℕ}
    {p q : PendingApproval} (owned : s.Owns h p) (current : s.processor.current = some q)
    (same : p.tx = q.tx) : p = q :=
  proposal_eq (wired.owner_issued h p owned).2 (wired.current_newest q current).2 same

/-- The proposal in the slot is the newest one. -/
theorem Wired.slot_newest {seed : ℕ} {s : Approval} (wired : Wired seed s) {p : PendingApproval}
    (pending : s.slot = some p) : p.tx + 1 = s.issued ∧ p.id = proposalId seed p.tx :=
  wired.current_newest p (Processor.current_of_exposed (wired.slot_exposed p pending))

/-- `clear_pending` of the proposal the processor works on leaves the slot empty. -/
theorem Wired.slot_cleared {seed : ℕ} {s : Approval} (wired : Wired seed s) {p : PendingApproval}
    (current : s.processor.exposed = some p) : Bot.clearPending s.slot p.id = none := by
  unfold Bot.clearPending
  cases held : s.slot with
  | none => rfl
  | some q =>
    have same := (wired.slot_exposed q held).symm.trans current
    obtain rfl := Option.some.inj same
    simp

theorem wired_initial (seed : ℕ) (paused : Bool) : Wired seed (initial seed paused) where
  slot_exposed := by rintro p ⟨⟩
  next_id := by simp [initial, proposalId]
  current_newest := by rintro p ⟨⟩
  receiver_live := fun c => ⟨by rintro ⟨⟩, by rintro ⟨⟩⟩
  owner_issued := by rintro h p ⟨⟩
  owner_removed := by rintro h p q ⟨⟩
  owner_unique := by rintro h k p q ⟨⟩
  confirmed_sent := by rintro h p ⟨⟩
  sent_confirmed := by rintro c v ⟨⟩

variable {seed : ℕ} {bot : BotState} {s t : Approval} {e : Event}

/-! ### The slot -/

private theorem slot_exposed_step (wired : Wired seed s) (moved : Moves bot s e t)
    (p : PendingApproval) (pending : t.slot = some p) : t.processor.exposed = some p := by
  have before := wired.slot_exposed p
  cases moved with
  | propose => exact pending
  | clearFailed q phase | clear q _ phase =>
    -- the slot is empty behind `clear_pending`
    have cleared := wired.slot_cleared (p := q) (by rw [phase]; rfl)
    exact absurd (cleared.symm.trans pending) (by rintro ⟨⟩)
  | taken => cases pending
  | missed | accepted | late | operator => exact before pending
  | gate phase | hold phase | sendOk _ phase | sendErr _ phase | dropFailed _ phase
  | received _ _ phase | closed _ phase | elapse _ phase | dropElapsed _ phase | submit _ phase
  | skip _ phase =>
    -- the phase on either side exposes the same proposal
    rw [phase] at before
    exact before pending

private theorem next_id_step (wired : Wired seed s) (moved : Moves bot s e t) :
    t.nextProposalId = proposalId seed t.issued := by
  have before := wired.next_id
  cases moved with
  | propose =>
    -- the counter wraps as the IDs do
    have wrapped : (proposalId seed s.issued + 1) % 2 ^ 64 = proposalId seed (s.issued + 1) := by
      simp only [proposalId, Nat.mod_add_mod, Nat.add_assoc]
    exact (congrArg (fun n => (n + 1) % 2 ^ 64) before).trans wrapped
  | _ => exact before

private theorem current_newest_step (wired : Wired seed s) (moved : Moves bot s e t)
    (p : PendingApproval) (current : t.processor.current = some p) :
    p.tx + 1 = t.issued ∧ p.id = proposalId seed p.tx := by
  have before := wired.current_newest p
  cases moved with
  -- a new proposal is numbered by the counters themselves
  | propose =>
    obtain rfl := Option.some.inj current
    exact ⟨rfl, wired.next_id⟩
  | taken | missed | accepted | late | operator => exact before current
  | gate | hold | submit | skip => cases current
  | clearFailed _ phase | clear _ _ phase | sendOk _ phase | sendErr _ phase | dropFailed _ phase
  | received _ _ phase | closed _ phase | elapse _ phase | dropElapsed _ phase =>
    rw [phase] at before
    exact before current

/-! ### The channels -/

/-- Emptying the slot costs at most one channel its sender. -/
private theorem dropSlot_channel (slot : PendingSlot) (channel : ℕ → Oneshot Bool) (c : ℕ) :
    dropSlot slot channel c = channel c ∨ dropSlot slot channel c = (channel c).dropSender := by
  cases slot with
  | none => exact Or.inl rfl
  | some p =>
    by_cases same : c = p.tx
    · subst same
      exact Or.inr (Function.update_self ..)
    · exact Or.inl (Function.update_of_ne same ..)

private theorem dropSlot_receiverLive (slot : PendingSlot) (channel : ℕ → Oneshot Bool) (c : ℕ) :
    (dropSlot slot channel c).receiverLive = (channel c).receiverLive := by
  rcases dropSlot_channel slot channel c with kept | dropped
  · rw [kept]
  · rw [dropped, Oneshot.dropSender_receiverLive]

private theorem dropSlot_sent (slot : PendingSlot) (channel : ℕ → Oneshot Bool) (c : ℕ) :
    (dropSlot slot channel c).sent = (channel c).sent := by
  rcases dropSlot_channel slot channel c with kept | dropped
  · rw [kept]
  · rw [dropped, Oneshot.dropSender_sent]

private theorem clearPending_receiverLive (s : Approval) (id c : ℕ) :
    ((s.clearPending id).channel c).receiverLive = (s.channel c).receiverLive := by
  unfold clearPending
  dsimp only
  split
  · exact dropSlot_receiverLive s.slot s.channel c
  · rfl

private theorem clearPending_sent (s : Approval) (id c : ℕ) :
    ((s.clearPending id).channel c).sent = (s.channel c).sent := by
  unfold clearPending
  dsimp only
  split
  · exact dropSlot_sent s.slot s.channel c
  · rfl

private theorem dropReceiver_sent (s : Approval) (tx c : ℕ) :
    ((s.dropReceiver tx).channel c).sent = (s.channel c).sent := by
  by_cases same : c = tx
  · subst same
    simp [dropReceiver]
  · simp [dropReceiver, same]

/-- Dropping the one receiver the processor holds leaves none. -/
private theorem dropReceiver_live (wired : Wired seed s) {tx : ℕ}
    (held : s.processor.receiver = some tx) (c : ℕ) :
    ((s.dropReceiver tx).channel c).receiverLive = false := by
  by_cases same : c = tx
  · subst same
    simp [dropReceiver]
  · have other : ¬ (s.channel c).receiverLive = true := by
      rw [wired.receiver_live c, held]
      rintro ⟨⟩
      exact same rfl
    simpa [dropReceiver, same] using other

private theorem receiver_live_step (wired : Wired seed s) (moved : Moves bot s e t) (c : ℕ) :
    (t.channel c).receiverLive = true ↔ t.processor.receiver = some c := by
  have before := wired.receiver_live c
  cases moved with
  | propose phase =>
    -- only the fresh channel has a receiver: the processor was idle between proposals
    by_cases newest : c = s.issued
    · subst newest
      simp [propose, Processor.receiver, Oneshot.fresh]
    · rw [phase] at before
      have others : (s.propose.channel c).receiverLive = (s.channel c).receiverLive := by
        simp only [propose, Function.update_of_ne newest, dropSlot_receiverLive]
      rw [others, before]
      constructor
      · rintro ⟨⟩
      · intro same
        exact absurd (Option.some.inj same).symm newest
  | clearFailed q phase | clear q _ phase =>
    rw [phase] at before
    exact (by rw [clearPending_receiverLive] : _ ↔ _).trans before
  | dropFailed q phase | received q _ phase | closed q phase | dropElapsed q phase =>
    have held : s.processor.receiver = some q.tx := by rw [phase]; rfl
    have gone := dropReceiver_live wired held c
    exact iff_of_false (by rw [gone]; exact Bool.false_ne_true) (by rintro ⟨⟩)
  | accepted h p own live =>
    -- a send leaves the receiver where it is
    by_cases same : c = p.tx
    · subst same
      simpa [live] using before
    · simpa [same] using before
  | late h p own dropped =>
    by_cases same : c = p.tx
    · subst same
      simpa using before
    · simpa [same] using before
  | taken | missed | operator => exact before
  | gate phase | hold phase | sendOk _ phase | sendErr _ phase | elapse _ phase | submit _ phase
  | skip _ phase =>
    rw [phase] at before
    exact before

/-! ### The handlers -/

theorem issued_mono (moved : Moves bot s e t) : s.issued ≤ t.issued := by
  cases moved with
  | propose => exact Nat.le_succ _
  | _ => exact Nat.le_refl _

theorem not_takes {k : ℕ} {q : PendingApproval} (other : ∀ msg idArg, e ≠ .approve k msg idArg) :
    ¬ Takes bot s e k q := by
  rintro ⟨msg, idArg, mine, -⟩
  exact other msg idArg mine

theorem not_confirms {k : ℕ} {q : PendingApproval} (other : e ≠ .approveSend k) :
    ¬ Confirms s e k q := fun confirms => other confirms.1

/-- A proposal gets into a run's hands by being taken, and never out of them. -/
theorem owns_step (moved : Moves bot s e t) (k : ℕ) (q : PendingApproval) :
    t.Owns k q ↔ s.Owns k q ∨ Takes bot s e k q := by
  cases moved with
  | taken h msg idArg p fresh pending allowed =>
    by_cases same : k = h
    · subst same
      -- the run that takes the proposal had nothing before
      have none : ¬ s.Owns k q := by simp [Owns, fresh, ApproveRun.proposal]
      simp only [none, false_or]
      constructor
      · intro owned
        obtain rfl : p = q := by simpa [Owns, ApproveRun.proposal] using owned
        exact ⟨msg, idArg, rfl, fresh, pending, allowed⟩
      · rintro ⟨_, _, -, -, held, -⟩
        obtain rfl := Option.some.inj (pending.symm.trans held)
        simp [Owns, ApproveRun.proposal]
    · have untouched : ¬ Takes bot s (.approve h msg idArg) k q :=
        not_takes (by rintro _ _ ⟨⟩; exact same rfl)
      simp [Owns, untouched, same]
  | missed h msg idArg r fresh nothing refused =>
    have untouched : ¬ Takes bot s (.approve h msg idArg) k q := by
      rintro ⟨_, _, mine, -, held, allowed⟩
      cases mine
      exact refused q held allowed
    by_cases same : k = h
    · subst same
      have before : ¬ s.Owns k q := by simp [Owns, fresh, ApproveRun.proposal]
      have after : ¬ r.proposal = some q := by simp [nothing]
      exact iff_of_false (by simpa [Owns] using after) (not_or.mpr ⟨before, untouched⟩)
    · simp [Owns, untouched, same]
  | accepted h p own | late h p own =>
    have untouched : ¬ Takes bot s (.approveSend h) k q := not_takes (by rintro _ _ ⟨⟩)
    by_cases same : k = h
    · subst same
      simp [Owns, untouched, own, ApproveRun.proposal]
    · simp [Owns, untouched, same]
  | _ =>
    -- no other event reaches a handler
    rw [or_iff_left (not_takes (by rintro _ _ ⟨⟩))]
    exact Iff.rfl

theorem confirmed_step (moved : Moves bot s e t) (k : ℕ) (q : PendingApproval) :
    t.ConfirmedBy k q ↔ s.ConfirmedBy k q ∨ Confirms s e k q := by
  cases moved with
  | taken h msg idArg p fresh =>
    have untouched : ¬ Confirms s (.approve h msg idArg) k q := not_confirms (by rintro ⟨⟩)
    by_cases same : k = h
    · subst same
      simp [ConfirmedBy, untouched, fresh]
    · simp [ConfirmedBy, untouched, same]
  | missed h msg idArg r fresh nothing =>
    have untouched : ¬ Confirms s (.approve h msg idArg) k q := not_confirms (by rintro ⟨⟩)
    by_cases same : k = h
    · subst same
      have after : ¬ r = .replied (.approved q) := by
        rintro rfl
        cases nothing
      simp [ConfirmedBy, untouched, fresh, after]
    · simp [ConfirmedBy, untouched, same]
  -- the send succeeds only while the waiting tick still holds the receiver
  | accepted h p own live =>
    by_cases same : k = h
    · subst same
      simp only [ConfirmedBy, Function.update_self, own, Confirms, true_and, reduceCtorEq,
        false_or]
      constructor
      · intro confirmed
        cases confirmed
        exact ⟨rfl, live⟩
      · rintro ⟨mine, -⟩
        cases mine
        rfl
    · have untouched : ¬ Confirms s (.approveSend h) k q :=
        not_confirms (by rintro ⟨⟩; exact same rfl)
      simp [ConfirmedBy, untouched, same]
  -- the receiver is gone: the handler owns the entry but confirms nothing
  | late h p own dropped =>
    have untouched : ¬ Confirms s (.approveSend h) k q := by
      rintro ⟨mine, held, live⟩
      cases mine
      obtain rfl : p = q := by simpa [own] using held
      exact absurd (live.symm.trans dropped) (by decide)
    by_cases same : k = h
    · subst same
      simp [ConfirmedBy, untouched, own]
    · simp [ConfirmedBy, untouched, same]
  | _ =>
    rw [or_iff_left (not_confirms (by rintro ⟨⟩))]
    exact Iff.rfl

private theorem owner_issued_step (wired : Wired seed s) (moved : Moves bot s e t) (h : ℕ)
    (p : PendingApproval) (owned : t.Owns h p) :
    p.tx < t.issued ∧ p.id = proposalId seed p.tx := by
  have more := issued_mono moved
  rcases (owns_step moved h p).mp owned with before | ⟨_, _, -, -, pending, -⟩
  · obtain ⟨old, id⟩ := wired.owner_issued h p before
    exact ⟨by omega, id⟩
  · obtain ⟨newest, id⟩ := wired.slot_newest pending
    exact ⟨by omega, id⟩

/-- The slot changes only by a new proposal coming in. -/
private theorem slot_step (wired : Wired seed s) (moved : Moves bot s e t) (p : PendingApproval)
    (pending : t.slot = some p) : s.slot = some p ∨ p.tx = s.issued := by
  cases moved with
  | propose =>
    obtain rfl := Option.some.inj pending
    exact Or.inr rfl
  | clearFailed q phase | clear q _ phase =>
    have cleared := wired.slot_cleared (p := q) (by rw [phase]; rfl)
    exact absurd (cleared.symm.trans pending) (by rintro ⟨⟩)
  | taken => cases pending
  | _ => exact Or.inl pending

private theorem owner_removed_step (wired : Wired seed s) (moved : Moves bot s e t) (h : ℕ)
    (p q : PendingApproval) (owned : t.Owns h p) (pending : t.slot = some q) : q.tx ≠ p.tx := by
  rcases (owns_step moved h p).mp owned with before | ⟨msg, idArg, rfl, -, taken, allowed⟩
  · have old := (wired.owner_issued h p before).1
    rcases slot_step wired moved q pending with kept | new
    · exact wired.owner_removed h p q before kept
    · omega
  · -- the run that takes the proposal leaves the slot empty
    cases moved with
    | taken => cases pending
    | missed _ _ _ _ _ _ refused => exact absurd allowed (refused p taken)

private theorem owner_unique_step (wired : Wired seed s) (moved : Moves bot s e t) (h k : ℕ)
    (p q : PendingApproval) (first : t.Owns h p) (second : t.Owns k q) (same : p.tx = q.tx) :
    h = k := by
  -- old against old by the invariant; a proposal in the slot is in nobody's hands yet
  rcases (owns_step moved h p).mp first with old | ⟨_, _, event, -, taken, -⟩ <;>
    rcases (owns_step moved k q).mp second with old' | ⟨_, _, event', -, taken', -⟩
  · exact wired.owner_unique h k p q old old' same
  · exact absurd same.symm (wired.owner_removed h p q old taken')
  · exact absurd same (wired.owner_removed k q p old' taken)
  · cases event.symm.trans event'
    rfl

/-! ### The values sent -/

private theorem sent_step (moved : Moves bot s e t) (c : ℕ) (v : Bool)
    (sent : (t.channel c).sent = some v) :
    (s.channel c).sent = some v ∨ v = true ∧ ∃ h p, p.tx = c ∧ Confirms s e h p := by
  cases moved with
  | propose =>
    -- a fresh channel carries nothing
    by_cases newest : c = s.issued
    · subst newest
      simp [propose, Oneshot.fresh] at sent
    · simp only [propose, Function.update_of_ne newest, dropSlot_sent] at sent
      exact Or.inl sent
  | clearFailed | clear =>
    left
    exact (clearPending_sent s _ c).symm.trans sent
  | dropFailed | received | closed | dropElapsed =>
    left
    exact (dropReceiver_sent s _ c).symm.trans sent
  | accepted h p own live =>
    by_cases same : c = p.tx
    · subst same
      have value : v = true := by simpa using sent.symm
      exact Or.inr ⟨value, h, p, rfl, rfl, own, live⟩
    · simp only [Function.update_of_ne same] at sent
      exact Or.inl sent
  | late h p own dropped =>
    left
    by_cases same : c = p.tx
    · subst same
      simpa using sent
    · simpa [same] using sent
  | _ => exact Or.inl sent

private theorem sent_kept (moved : Moves bot s e t) (c : ℕ) (old : c < s.issued)
    (sent : (s.channel c).sent = some true) : (t.channel c).sent = some true := by
  cases moved with
  | propose =>
    simp only [propose, Function.update_of_ne (Nat.ne_of_lt old), dropSlot_sent]
    exact sent
  | clearFailed | clear => exact (clearPending_sent s _ c).trans sent
  | dropFailed | received | closed | dropElapsed => exact (dropReceiver_sent s _ c).trans sent
  | accepted h p =>
    -- a second send on a channel could only repeat the value
    by_cases same : c = p.tx
    · simp [same]
    · simpa [same] using sent
  | late h p =>
    by_cases same : c = p.tx
    · subst same
      simpa using sent
    · simpa [same] using sent
  | _ => exact sent

private theorem confirmed_sent_step (wired : Wired seed s) (moved : Moves bot s e t) (h : ℕ)
    (p : PendingApproval) (confirmed : t.ConfirmedBy h p) :
    (t.channel p.tx).sent = some true := by
  rcases (confirmed_step moved h p).mp confirmed with before | ⟨rfl, own, live⟩
  · have old := (wired.owner_issued h p before.owns).1
    exact sent_kept moved p.tx old (wired.confirmed_sent h p before)
  · cases moved with
    | accepted _ q own' =>
      obtain rfl : p = q := by simpa [own] using own'
      simp
    | late _ q own' dropped =>
      obtain rfl : p = q := by simpa [own] using own'
      exact absurd (live.symm.trans dropped) (by decide)

private theorem sent_confirmed_step (wired : Wired seed s) (moved : Moves bot s e t) (c : ℕ)
    (v : Bool) (sent : (t.channel c).sent = some v) :
    v = true ∧ ∃ h p, p.tx = c ∧ t.ConfirmedBy h p := by
  rcases sent_step moved c v sent with before | ⟨value, h, p, here, now⟩
  · obtain ⟨value, h, p, here, confirmed⟩ := wired.sent_confirmed c v before
    exact ⟨value, h, p, here, (confirmed_step moved h p).mpr (Or.inl confirmed)⟩
  · exact ⟨value, h, p, here, (confirmed_step moved h p).mpr (Or.inr now)⟩

theorem wired_step (wired : Wired seed s) (moved : Moves bot s e t) : Wired seed t where
  slot_exposed := slot_exposed_step wired moved
  next_id := next_id_step wired moved
  current_newest := current_newest_step wired moved
  receiver_live := receiver_live_step wired moved
  owner_issued := owner_issued_step wired moved
  owner_removed := owner_removed_step wired moved
  owner_unique := owner_unique_step wired moved
  confirmed_sent := confirmed_sent_step wired moved
  sent_confirmed := sent_confirmed_step wired moved

theorem wired_run {events : List Event} {paused : Bool}
    (played : run (step bot) (initial seed paused) events = some t) : Wired seed t :=
  Machine.run_invariant (step bot) (Wired seed)
    (fun _ _ _ wired moved => wired_step wired (step_moves moved)) _ t events played
    (wired_initial seed paused)

end Approval
end TickLiq.Bot
