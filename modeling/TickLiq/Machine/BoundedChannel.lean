import Mathlib.Data.Nat.Notation
import Mathlib.Tactic.TypeStar

/-!
# Bounded channels

A queue of at most `capacity` values. The sender does not wait: where the queue is full
the value is handed back and the queue stays as it is.
-/
namespace Machine

structure BoundedChannel (α : Type*) (capacity : ℕ) where
  queue : List α
  bounded : queue.length ≤ capacity
deriving DecidableEq

namespace BoundedChannel

variable {α : Type*} {capacity : ℕ}

def empty : BoundedChannel α capacity := ⟨[], Nat.zero_le _⟩

/-- The channel with the value in it, unless the queue is full. -/
def trySend (ch : BoundedChannel α capacity) (value : α) : Option (BoundedChannel α capacity) :=
  if room : ch.queue.length < capacity then
    some ⟨ch.queue ++ [value], by rw [List.length_append]; exact room⟩
  else none

/-- The oldest value and the channel without it. -/
def recv (ch : BoundedChannel α capacity) : Option (α × BoundedChannel α capacity) :=
  match shape : ch.queue with
  | [] => none
  | value :: rest => some (value, ⟨rest, by
      have bounded := ch.bounded
      rw [shape, List.length_cons] at bounded
      exact Nat.le_of_succ_le bounded⟩)

theorem trySend_some {ch next : BoundedChannel α capacity} {value : α}
    (sent : ch.trySend value = some next) :
    ch.queue.length < capacity ∧ next.queue = ch.queue ++ [value] := by
  simp only [trySend] at sent
  split at sent
  next room =>
    cases sent
    exact ⟨room, rfl⟩
  next => cases sent

theorem trySend_none_iff {ch : BoundedChannel α capacity} {value : α} :
    ch.trySend value = none ↔ ch.queue.length = capacity := by
  have bounded := ch.bounded
  simp only [trySend]
  split
  next room => simp [Nat.ne_of_lt room]
  next full => simp [Nat.le_antisymm bounded (Nat.le_of_not_lt full)]

theorem recv_some {ch next : BoundedChannel α capacity} {value : α}
    (taken : ch.recv = some (value, next)) : ch.queue = value :: next.queue := by
  simp only [recv] at taken
  split at taken
  next => cases taken
  next first rest shape =>
    cases taken
    exact shape

theorem recv_none_iff {ch : BoundedChannel α capacity} : ch.recv = none ↔ ch.queue = [] := by
  simp only [recv]
  split
  next shape => simp [shape]
  next first rest shape => simp [shape]

end BoundedChannel

end Machine
