import Mathlib.Data.Nat.Notation
import Mathlib.Data.Int.Notation
import TickLiq.Machine.Oneshot

/-!
# `/approve`: who may call it and what it matches

The pure parts of `handle_approve`: authorisation, the argument, and the section
under the lock of the pending slot. Characters are Unicode scalar values, as in
the source; `u64::from_str` takes an optional plus sign and rejects overflow.
-/
namespace TickLiq.Bot

structure Message where
  chatId : ℤ
  /-- The sender; absent for an anonymous admin. -/
  fromUser : Option ℕ
deriving DecidableEq

structure BotState where
  chatId : ℤ
  allowedUserIds : List ℕ

def checkAuth (msg : Message) (state : BotState) : Bool :=
  if msg.chatId ≠ state.chatId then false
  else
    -- an anonymous sender is nobody on the list
    match msg.fromUser with
    | some user => state.allowedUserIds.contains user
    | none => false

/-- `char::is_whitespace`: the Unicode `White_Space` property. -/
def isWhitespace (c : Char) : Bool :=
  let n := c.toNat
  (9 ≤ n && n ≤ 13) || n == 32 || n == 0x85 || n == 0xA0 || n == 0x1680 ||
    (0x2000 ≤ n && n ≤ 0x200A) || n == 0x2028 || n == 0x2029 || n == 0x202F || n == 0x205F ||
    n == 0x3000

/-- `str::trim` -/
def trim (s : List Char) : List Char :=
  ((s.dropWhile isWhitespace).reverse.dropWhile isWhitespace).reverse

/-- `char::to_digit(10)` -/
def toDigit (c : Char) : Option ℕ :=
  if '0' ≤ c ∧ c ≤ '9' then some (c.toNat - '0'.toNat) else none

/-- Digits after `acc`, left to right, failing as soon as `u64` overflows. -/
def parseDigits : ℕ → List Char → Option ℕ
  | acc, [] => some acc
  | acc, c :: cs =>
    (toDigit c).bind fun d => if acc * 10 + d < 2 ^ 64 then parseDigits (acc * 10 + d) cs else none

/-- `u64::from_str` -/
def parseU64 : List Char → Option ℕ
  | [] => none
  | ['+'] => none
  | '+' :: digits => parseDigits 0 digits
  | digits => parseDigits 0 digits

/-- A proposal: its ID, and the channel whose sender sits in the slot. -/
structure PendingApproval where
  id : ℕ
  tx : ℕ
deriving DecidableEq

abbrev PendingSlot := Option PendingApproval

/-- The answers of `handle_approve`. -/
inductive Reply where
  | usage
  | approved (pending : PendingApproval)
  | expired (pending : PendingApproval)
  | wrongId (requestedId pendingId : ℕ)
  | noPending
deriving DecidableEq

def Reply.text : Reply → String
  | .usage => "Usage: /approve <id> (the ID from the proposal message)."
  | .approved pending => s!"Approved proposal #{pending.id}. Executing rebalance."
  | .expired pending => s!"Proposal #{pending.id} already expired. Rebalance NOT executed."
  | .wrongId requestedId pendingId =>
    s!"No proposal #{requestedId}. Pending proposal is #{pendingId} — re-check before approving."
  | .noPending => "No pending rebalance to approve."

/-- A run of `handle_approve`. -/
inductive ApproveRun where
  | received
  | unauthorized
  /-- It has taken the proposal out of the slot and not yet sent on its channel. -/
  | matched (pending : PendingApproval)
  | replied (reply : Reply)
deriving DecidableEq

/-- The proposal a run has taken out of the slot. -/
def ApproveRun.proposal : ApproveRun → Option PendingApproval
  | .matched p => some p
  | .replied (.approved p) => some p
  | .replied (.expired p) => some p
  | _ => none

/-- The section under the lock: `take` on a match. -/
def matchSlot (slot : PendingSlot) (requestedId : ℕ) : ApproveRun × PendingSlot :=
  match slot with
  | some p =>
    if p.id = requestedId then (.matched p, none) else (.replied (.wrongId requestedId p.id), slot)
  | none => (.replied .noPending, slot)

/-- `handle_approve` up to the end of the locked section. -/
def beginApprove (state : BotState) (slot : PendingSlot) (msg : Message) (idArg : String) :
    ApproveRun × PendingSlot :=
  if checkAuth msg state then
    match parseU64 (trim idArg.toList) with
    | some requestedId => matchSlot slot requestedId
    | none => (.replied .usage, slot)
  else (.unauthorized, slot)

/-- `handle_approve` after the lock: the answer depends on the channel only. -/
def finishApprove (pending : PendingApproval) (ch : Machine.Oneshot Bool) :
    Reply × Machine.Oneshot Bool :=
  let (ch, accepted) := ch.send true
  (if accepted then .approved pending else .expired pending, ch)

/-- `clear_pending` -/
def clearPending (slot : PendingSlot) (id : ℕ) : PendingSlot :=
  -- a newer proposal in the slot stays
  if slot.any (fun p => p.id = id) then none else slot

/-- An argument that this message, from this sender, may name the proposal by. -/
def Authorizes (state : BotState) (msg : Message) (idArg : String) (id : ℕ) : Prop :=
  checkAuth msg state = true ∧ parseU64 (trim idArg.toList) = some id

/-- A run takes the pending proposal if its sender is authorised and names it;
otherwise it takes nothing and leaves the slot alone. -/
theorem beginApprove_cases (state : BotState) (slot : PendingSlot) (msg : Message)
    (idArg : String) :
    (∃ p, slot = some p ∧ Authorizes state msg idArg p.id ∧
      beginApprove state slot msg idArg = (.matched p, none)) ∨
    (∃ r, r.proposal = none ∧ (∀ p, slot = some p → ¬ Authorizes state msg idArg p.id) ∧
      beginApprove state slot msg idArg = (r, slot)) := by
  unfold beginApprove
  by_cases known : checkAuth msg state = true
  · rw [if_pos known]
    cases parsed : parseU64 (trim idArg.toList) with
    | none =>
      refine .inr ⟨_, rfl, fun p _ allowed => ?_, rfl⟩
      exact Option.some_ne_none _ (allowed.2.symm.trans parsed)
    | some requestedId =>
      cases slot with
      | none => exact .inr ⟨_, rfl, by rintro p ⟨⟩, rfl⟩
      | some pending =>
        -- the slot is full: taken on the same ID, named in the answer otherwise
        simp only [matchSlot]
        by_cases same : pending.id = requestedId
        · rw [if_pos same]
          exact .inl ⟨pending, rfl, ⟨known, parsed.trans (congrArg some same.symm)⟩, rfl⟩
        · rw [if_neg same]
          refine .inr ⟨_, rfl, ?_, rfl⟩
          rintro p ⟨⟩ allowed
          exact same (Option.some.inj (allowed.2.symm.trans parsed))
  · rw [if_neg known]
    exact .inr ⟨_, rfl, fun p _ allowed => known allowed.1, rfl⟩

end TickLiq.Bot
