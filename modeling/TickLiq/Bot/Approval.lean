import Mathlib.Algebra.Group.Nat.Defs
import Mathlib.Logic.Function.Basic
import TickLiq.Machine.Run
import TickLiq.Bot.Commands

/-!
# Proposals, approvals and the tick processor

The processor walks from the operator-pause gate over `send_proposal` and
`await_approval` to `guard.submit`; any number of `handle_approve` runs and the
memory writes of `/pause` and `/resume` go on beside it. One event is one locked
section, one channel operation, or one outcome of a call that leaves the program.
-/
namespace TickLiq.Bot

open Machine (Oneshot)

inductive Processor where
  | idle
  /-- Past the operator-pause gate. -/
  | gated
  /-- The slot is filled, the message is on its way. -/
  | sending (p : PendingApproval)
  /-- `send_message` returned an error; then the slot is cleared, then the receiver dropped. -/
  | sendFailed (p : PendingApproval)
  | sendCleared (p : PendingApproval)
  | awaiting (p : PendingApproval)
  /-- The timer has fired, the receiver still exists. -/
  | elapsed (p : PendingApproval)
  /-- `await_approval` has returned, `clear_pending` is next. -/
  | waited (p : PendingApproval) (approved : Bool)
  | decided (p : PendingApproval) (approved : Bool)
deriving DecidableEq

structure Approval where
  /-- `NEXT_PROPOSAL_ID`, a `u64`. -/
  nextProposalId : ℕ
  /-- The number of channels created so far; they are numbered in order. -/
  issued : ℕ
  slot : PendingSlot
  channel : ℕ → Oneshot Bool
  processor : Processor
  approveRun : ℕ → ApproveRun
  operatorPause : Bool

inductive Event where
  | gate
  | hold
  | propose
  | sendOk
  | sendErr
  | clearFailed
  | dropFailed
  | receive
  | elapse
  | dropElapsed
  | clear
  | submit (tx : ℕ)
  | skip
  | approve (h : ℕ) (msg : Message) (idArg : String)
  | approveSend (h : ℕ)
  | operator (paused : Bool)
deriving DecidableEq

namespace Approval

/-- Taking a proposal out of the slot drops its sender. -/
def dropSlot (slot : PendingSlot) (channel : ℕ → Oneshot Bool) : ℕ → Oneshot Bool :=
  match slot with
  | some p => Function.update channel p.tx (channel p.tx).dropSender
  | none => channel

/-- `send_proposal` up to the message: a fresh ID and channel go into the slot. -/
def propose (s : Approval) : Approval :=
  let p : PendingApproval := ⟨s.nextProposalId, s.issued⟩
  { s with
    -- `fetch_add` wraps
    nextProposalId := (s.nextProposalId + 1) % 2 ^ 64
    issued := s.issued + 1
    slot := some p
    channel := Function.update (dropSlot s.slot s.channel) p.tx .fresh
    processor := .sending p }

def clearPending (s : Approval) (id : ℕ) : Approval :=
  { s with
    slot := Bot.clearPending s.slot id
    channel := if s.slot.any fun p => p.id = id then dropSlot s.slot s.channel else s.channel }

def dropReceiver (s : Approval) (tx : ℕ) : Approval :=
  { s with channel := Function.update s.channel tx (s.channel tx).dropReceiver }

/-- The end of `await_approval`, if the receiver has something to say. -/
def receive (s : Approval) (p : PendingApproval) : Option Approval :=
  match (s.channel p.tx).poll with
  | .ready approved => some { s.dropReceiver p.tx with processor := .waited p approved }
  | .closed => some { s.dropReceiver p.tx with processor := .waited p false }
  | .pending => none

def approve (bot : BotState) (s : Approval) (h : ℕ) (msg : Message) (idArg : String) : Approval :=
  let (r, slot) := beginApprove bot s.slot msg idArg
  { s with slot, approveRun := Function.update s.approveRun h r }

def approveSend (s : Approval) (h : ℕ) (p : PendingApproval) : Approval :=
  let (reply, ch) := finishApprove p (s.channel p.tx)
  { s with
    channel := Function.update s.channel p.tx ch
    approveRun := Function.update s.approveRun h (.replied reply) }

def step (bot : BotState) (s : Approval) (e : Event) : Option Approval :=
  match e, s.processor with
  -- the operator-pause gate ends the tick
  | .gate, .idle => if s.operatorPause then none else some { s with processor := .gated }
  | .hold, .gated => some { s with processor := .idle }
  | .propose, .gated => some s.propose
  | .sendOk, .sending p => some { s with processor := .awaiting p }
  | .sendErr, .sending p => some { s with processor := .sendFailed p }
  -- the error path of `send_proposal` clears the slot before its receiver goes
  | .clearFailed, .sendFailed p => some { s.clearPending p.id with processor := .sendCleared p }
  | .dropFailed, .sendCleared p => some { s.dropReceiver p.tx with processor := .decided p false }
  | .receive, .awaiting p => s.receive p
  | .elapse, .awaiting p =>
    -- the timer is only looked at when the channel has nothing to say
    if (s.channel p.tx).poll = .pending then some { s with processor := .elapsed p } else none
  | .dropElapsed, .elapsed p => some { s.dropReceiver p.tx with processor := .waited p false }
  | .clear, .waited p approved => some { s.clearPending p.id with processor := .decided p approved }
  | .submit tx, .decided p true => if p.tx = tx then some { s with processor := .idle } else none
  | .skip, .decided _ false => some { s with processor := .idle }
  -- handlers and commands run beside the processor, in any of its phases
  | .approve h msg idArg, _ =>
    if s.approveRun h = .received then some (s.approve bot h msg idArg) else none
  | .approveSend h, _ =>
    match s.approveRun h with
    | .matched p => some (s.approveSend h p)
    | _ => none
  | .operator paused, _ => some { s with operatorPause := paused }
  | _, _ => none

/-- The counter is seeded from the process start time. -/
def initial (seed : ℕ) (paused : Bool) : Approval :=
  ⟨seed % 2 ^ 64, 0, none, fun _ => ⟨none, false, false⟩, .idle, fun _ => .received, paused⟩

/-- A chat with one allowed user, for the sample runs. -/
def sampleBot : BotState := ⟨7, [1]⟩

/-- What each enabled event does. -/
inductive Moves (bot : BotState) (s : Approval) : Event → Approval → Prop where
  | gate (phase : s.processor = .idle) (resumed : s.operatorPause = false) :
    Moves bot s .gate { s with processor := .gated }
  | hold (phase : s.processor = .gated) : Moves bot s .hold { s with processor := .idle }
  | propose (phase : s.processor = .gated) : Moves bot s .propose s.propose
  | sendOk (p : PendingApproval) (phase : s.processor = .sending p) :
    Moves bot s .sendOk { s with processor := .awaiting p }
  | sendErr (p : PendingApproval) (phase : s.processor = .sending p) :
    Moves bot s .sendErr { s with processor := .sendFailed p }
  | clearFailed (p : PendingApproval) (phase : s.processor = .sendFailed p) :
    Moves bot s .clearFailed { s.clearPending p.id with processor := .sendCleared p }
  | dropFailed (p : PendingApproval) (phase : s.processor = .sendCleared p) :
    Moves bot s .dropFailed { s.dropReceiver p.tx with processor := .decided p false }
  | received (p : PendingApproval) (approved : Bool) (phase : s.processor = .awaiting p)
      (value : (s.channel p.tx).sent = some approved) :
    Moves bot s .receive { s.dropReceiver p.tx with processor := .waited p approved }
  | closed (p : PendingApproval) (phase : s.processor = .awaiting p)
      (value : (s.channel p.tx).sent = none) :
    Moves bot s .receive { s.dropReceiver p.tx with processor := .waited p false }
  | elapse (p : PendingApproval) (phase : s.processor = .awaiting p)
      (value : (s.channel p.tx).sent = none) :
    Moves bot s .elapse { s with processor := .elapsed p }
  | dropElapsed (p : PendingApproval) (phase : s.processor = .elapsed p) :
    Moves bot s .dropElapsed { s.dropReceiver p.tx with processor := .waited p false }
  | clear (p : PendingApproval) (approved : Bool) (phase : s.processor = .waited p approved) :
    Moves bot s .clear { s.clearPending p.id with processor := .decided p approved }
  | submit (p : PendingApproval) (phase : s.processor = .decided p true) :
    Moves bot s (.submit p.tx) { s with processor := .idle }
  | skip (p : PendingApproval) (phase : s.processor = .decided p false) :
    Moves bot s .skip { s with processor := .idle }
  | taken (h : ℕ) (msg : Message) (idArg : String) (p : PendingApproval)
      (fresh : s.approveRun h = .received) (pending : s.slot = some p)
      (allowed : Authorizes bot msg idArg p.id) :
    Moves bot s (.approve h msg idArg)
      { s with slot := none, approveRun := Function.update s.approveRun h (.matched p) }
  | missed (h : ℕ) (msg : Message) (idArg : String) (r : ApproveRun)
      (fresh : s.approveRun h = .received) (nothing : r.proposal = none)
      (refused : ∀ p, s.slot = some p → ¬ Authorizes bot msg idArg p.id) :
    Moves bot s (.approve h msg idArg)
      { s with approveRun := Function.update s.approveRun h r }
  | accepted (h : ℕ) (p : PendingApproval) (own : s.approveRun h = .matched p)
      (live : (s.channel p.tx).receiverLive = true) :
    Moves bot s (.approveSend h)
      { s with
        channel := Function.update s.channel p.tx ⟨some true, false, true⟩
        approveRun := Function.update s.approveRun h (.replied (.approved p)) }
  | late (h : ℕ) (p : PendingApproval) (own : s.approveRun h = .matched p)
      (dropped : (s.channel p.tx).receiverLive = false) :
    Moves bot s (.approveSend h)
      { s with
        channel := Function.update s.channel p.tx (s.channel p.tx).dropSender
        approveRun := Function.update s.approveRun h (.replied (.expired p)) }
  | operator (paused : Bool) : Moves bot s (.operator paused) { s with operatorPause := paused }

theorem step_moves {bot : BotState} {s t : Approval} {e : Event} (moved : step bot s e = some t) :
    Moves bot s e t := by
  unfold step at moved
  split at moved
  next phase =>
    split at moved
    next => cases moved
    next resumed =>
      cases moved
      exact .gate phase (by simpa using resumed)
  next phase => cases moved; exact .hold phase
  next phase => cases moved; exact .propose phase
  next p phase => cases moved; exact .sendOk p phase
  next p phase => cases moved; exact .sendErr p phase
  next p phase => cases moved; exact .clearFailed p phase
  next p phase => cases moved; exact .dropFailed p phase
  next p phase =>
    -- the three things a receiver can see
    unfold receive at moved
    split at moved
    next approved ready =>
      cases moved
      exact .received p approved phase ((Oneshot.poll_ready _ _).mp ready)
    next closed =>
      cases moved
      exact .closed p phase (Oneshot.poll_not_ready fun v => by rw [closed]; rintro ⟨⟩)
    next => cases moved
  next p phase =>
    split at moved
    next pending =>
      cases moved
      exact .elapse p phase (Oneshot.poll_not_ready fun v => by rw [pending]; rintro ⟨⟩)
    next => cases moved
  next p phase => cases moved; exact .dropElapsed p phase
  next p approved phase => cases moved; exact .clear p approved phase
  next tx p phase =>
    split at moved
    next same =>
      cases moved
      subst same
      exact .submit p phase
    next => cases moved
  next p phase => cases moved; exact .skip p phase
  next h msg idArg =>
    split at moved
    next fresh =>
      cases moved
      simp only [approve]
      -- whether the message takes the proposal out of the slot
      obtain ⟨p, pending, allowed, result⟩ | ⟨r, nothing, refused, result⟩ :=
        beginApprove_cases bot s.slot msg idArg
      · rw [result]
        exact .taken h msg idArg p fresh pending allowed
      · rw [result]
        exact .missed h msg idArg r fresh nothing refused
    next => cases moved
  next h =>
    split at moved
    next p own =>
      cases moved
      -- the send goes through exactly while the receiver exists
      cases live : (s.channel p.tx).receiverLive with
      | true =>
        simp only [approveSend, finishApprove, Oneshot.send_live true live, if_true]
        exact .accepted h p own live
      | false =>
        simp only [approveSend, finishApprove, Oneshot.send_dropped true live, Bool.false_eq_true,
          if_false]
        exact .late h p own live
    next => cases moved
  next paused => cases moved; exact .operator paused
  next => cases moved

end Approval
end TickLiq.Bot
