import Mathlib.Tactic.TypeStar

/-!
# One-shot channels

A channel that carries at most one value. Sending consumes the sender and
succeeds exactly while the receiver exists; a value that was sent stays readable
until the receiver is gone.
-/
namespace Machine

structure Oneshot (α : Type*) where
  sent : Option α
  senderLive : Bool
  receiverLive : Bool
deriving DecidableEq

/-- What a receiver sees when it looks. -/
inductive Poll (α : Type*) where
  | ready (value : α)
  | closed
  | pending
deriving DecidableEq

namespace Oneshot

variable {α : Type*}

def fresh : Oneshot α := ⟨none, true, true⟩

/-- Consume the sender; the flag says whether the value was accepted. -/
def send (ch : Oneshot α) (value : α) : Oneshot α × Bool :=
  if ch.receiverLive then ({ ch with sent := some value, senderLive := false }, true)
  else ({ ch with senderLive := false }, false)

def dropSender (ch : Oneshot α) : Oneshot α := { ch with senderLive := false }

def dropReceiver (ch : Oneshot α) : Oneshot α := { ch with receiverLive := false }

def poll (ch : Oneshot α) : Poll α :=
  match ch.sent with
  | some value => .ready value
  | none => if ch.senderLive then .pending else .closed

theorem send_live {ch : Oneshot α} (value : α) (live : ch.receiverLive = true) :
    ch.send value = (⟨some value, false, true⟩, true) := by
  simp only [send, live, if_true]

theorem send_dropped {ch : Oneshot α} (value : α) (dropped : ch.receiverLive = false) :
    ch.send value = (ch.dropSender, false) := by
  simp only [send, dropped, Bool.false_eq_true, if_false, dropSender]

@[simp] theorem dropSender_sent (ch : Oneshot α) : ch.dropSender.sent = ch.sent := rfl

@[simp] theorem dropSender_receiverLive (ch : Oneshot α) :
    ch.dropSender.receiverLive = ch.receiverLive := rfl

@[simp] theorem dropReceiver_sent (ch : Oneshot α) : ch.dropReceiver.sent = ch.sent := rfl

@[simp] theorem dropReceiver_receiverLive (ch : Oneshot α) :
    ch.dropReceiver.receiverLive = false := rfl

theorem poll_ready (ch : Oneshot α) (value : α) : ch.poll = .ready value ↔ ch.sent = some value := by
  simp only [poll]
  -- an empty channel reads `closed` or `pending`, by its sender
  cases ch.sent with
  | some other => simp
  | none => cases ch.senderLive <;> simp

theorem poll_not_ready {ch : Oneshot α} (waiting : ∀ value, ch.poll ≠ .ready value) :
    ch.sent = none := by
  cases sent : ch.sent with
  | none => rfl
  | some value => exact absurd ((poll_ready ch value).mpr sent) (waiting value)

end Oneshot
end Machine
