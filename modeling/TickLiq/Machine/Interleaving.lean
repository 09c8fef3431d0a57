import Mathlib.Logic.Function.Basic
import TickLiq.Machine.Conversation
import TickLiq.Machine.Run

/-!
# Programs that share a state

Many programs ask one shared state, in any order, and each question may change it. What holds
along every interleaving is shown one program at a time: a program keeps an invariant of the
state as long as the others keep it too, and ends with its own postcondition.
-/
namespace Machine

/-- What a state answers, and the state after it. The choice settles what is up to the
surroundings; `none` where that choice is not open. -/
abbrev Shared (σ χ : Type) {Q : Type} (A : Q → Type) := σ → (q : Q) → χ → Option (A q × σ)

structure Interleaving (σ ι : Type) {Q : Type} (A : Q → Type) (α : Type) where
  shared : σ
  programs : ι → Conversation A α

variable {Q σ χ ι α β ε : Type} {A : Q → Type}

/-- What a program has returned, if it has come to its end. -/
def Conversation.returned : Conversation A α → Option α
  | .done result => some result
  | .ask _ _ => none

namespace Interleaving

/-- One program asks its next question. -/
def step [DecidableEq ι] (answer : Shared σ χ A) (c : Interleaving σ ι A α) (e : ι × χ) :
    Option (Interleaving σ ι A α) :=
  match c.programs e.1 with
  | .done _ => none
  | .ask q next =>
    (answer c.shared q e.2).map fun given =>
      ⟨given.2, Function.update c.programs e.1 (next given.1)⟩

end Interleaving

/-- Where all keep the invariant and no choice but those of `may` is made, the program keeps it
and ends with the postcondition. -/
inductive Keeps (answer : Shared σ χ A) (may : χ → Prop) (inv : σ → Prop) (post : α → Prop) :
    Conversation A α → Prop
  | done {result : α} (ends : post result) : Keeps answer may inv post (.done result)
  | ask {q : Q} {next : A q → Conversation A α}
      (kept : ∀ s x a t, inv s → may x → answer s q x = some (a, t) → inv t)
      (goes : ∀ s x a t, inv s → may x → answer s q x = some (a, t) →
        Keeps answer may inv post (next a)) : Keeps answer may inv post (.ask q next)

namespace Keeps

variable {answer : Shared σ χ A} {may : χ → Prop} {inv : σ → Prop}

theorem question {q : Q} {post : A q → Prop}
    (kept : ∀ s x a t, inv s → may x → answer s q x = some (a, t) → inv t ∧ post a) :
    Keeps answer may inv post (Conversation.question q) :=
  .ask (fun s x a t holds may given => (kept s x a t holds may given).1)
    fun s x a t holds may given => .done (kept s x a t holds may given).2

theorem bind {mid : α → Prop} {post : β → Prop} {c : Conversation A α}
    {f : α → Conversation A β} (first : Keeps answer may inv mid c)
    (second : ∀ a, mid a → Keeps answer may inv post (f a)) :
    Keeps answer may inv post (c >>= f) := by
  induction first with
  | done ends => exact second _ ends
  | ask kept goes ih => exact .ask kept ih

theorem weaken {post weaker : α → Prop} {c : Conversation A α}
    (keeps : Keeps answer may inv post c) (implies : ∀ a, post a → weaker a) :
    Keeps answer may inv weaker c := by
  induction keeps with
  | done ends => exact .done (implies _ ends)
  | ask kept goes ih => exact .ask kept ih

/-- A failure ends the program; otherwise it goes on. -/
theorem andThen {mid : Except ε α → Prop} {post : Except ε β → Prop}
    {c : ExceptT ε (Conversation A) α} {f : α → ExceptT ε (Conversation A) β}
    (first : Keeps answer may inv mid c.run) (failed : ∀ e, mid (.error e) → post (.error e))
    (second : ∀ a, mid (.ok a) → Keeps answer may inv post (f a).run) :
    Keeps answer may inv post (c >>= f).run := by
  refine bind first ?_
  rintro (e | a) ended
  · exact .done (failed e ended)
  · exact second a ended

/-- A step that cannot fail. -/
theorem lift {post : α → Prop} {c : Conversation A α} (keeps : Keeps answer may inv post c) :
    Keeps answer may inv (fun result => ∃ a, result = .ok a ∧ post a)
      (liftM c : ExceptT ε (Conversation A) α).run :=
  bind keeps fun a ended => .done ⟨a, rfl, ended⟩

end Keeps

namespace Interleaving

variable {answer : Shared σ χ A} {may : χ → Prop} {inv : σ → Prop} {who : ι → Prop}
  {post : ι → α → Prop}

/-- The invariant, and what each program that takes part still has to do for it. -/
structure Sound (answer : Shared σ χ A) (may : χ → Prop) (inv : σ → Prop) (who : ι → Prop)
    (post : ι → α → Prop) (c : Interleaving σ ι A α) : Prop where
  holds : inv c.shared
  keeps : ∀ i, who i → Keeps answer may inv (post i) (c.programs i)

theorem Sound.returned {c : Interleaving σ ι A α} (sound : Sound answer may inv who post c)
    {i : ι} (part : who i) {result : α} (ended : (c.programs i).returned = some result) :
    post i result := by
  have mine := sound.keeps i part
  cases here : c.programs i with
  | done r =>
    rw [here] at mine ended
    cases mine
    cases ended
    assumption
  | ask q next =>
    rw [here] at ended
    cases ended

theorem step_sound [DecidableEq ι] {c d : Interleaving σ ι A α} {e : ι × χ}
    (sound : Sound answer may inv who post c) (part : who e.1) (allowed : may e.2)
    (moved : step answer c e = some d) : Sound answer may inv who post d := by
  obtain ⟨i, x⟩ := e
  have mine := sound.keeps i part
  unfold step at moved
  split at moved
  next => cases moved
  next q next here =>
    obtain ⟨⟨a, t⟩, given, rfl⟩ := Option.map_eq_some_iff.mp moved
    dsimp only at here
    rw [here] at mine
    cases mine with
    | ask kept goes =>
      refine ⟨kept _ x a t sound.holds allowed given, fun j member => ?_⟩
      by_cases same : j = i
      · subst same
        simpa using goes _ x a t sound.holds allowed given
      · simpa [Function.update_of_ne same] using sound.keeps j member

/-- Whatever the order, the invariant holds and every program that returns meets its
postcondition. -/
theorem run_sound [DecidableEq ι] {c d : Interleaving σ ι A α} {es : List (ι × χ)}
    (part : ∀ e ∈ es, who e.1) (allowed : ∀ e ∈ es, may e.2)
    (sound : Sound answer may inv who post c) (played : run (step answer) c es = some d) :
    Sound answer may inv who post d := by
  induction es generalizing c with
  | nil =>
    cases played
    exact sound
  | cons e es ih =>
    obtain ⟨u, first, rest⟩ := (run_cons_some _ c d e es).mp played
    have here := step_sound sound (part e (by simp)) (allowed e (by simp)) first
    exact ih (fun e member => part e (List.mem_cons_of_mem _ member))
      (fun e member => allowed e (List.mem_cons_of_mem _ member)) here rest

end Interleaving

end Machine
