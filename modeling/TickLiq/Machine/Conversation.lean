import Mathlib.Data.List.Basic

/-!
# Programs that ask

A program asks, goes on by the answer and in the end returns. Who answers is no part of it: a
transcript of questions and answers leads it to its result. A program that asks again after a
failure is led to the same result by the answers it accepted alone, unless it has given up.
-/
namespace Machine

/-- A program that asks questions `q : Q`, each answered in `A q`. -/
inductive Conversation {Q : Type} (A : Q → Type) (α : Type) where
  | done (result : α)
  | ask (q : Q) (next : A q → Conversation A α)

/-- A question and its answer. -/
abbrev Exchange {Q : Type} (A : Q → Type) := (q : Q) × A q

namespace Conversation

variable {Q : Type} {A : Q → Type} {α β ε : Type}

def bind : Conversation A α → (α → Conversation A β) → Conversation A β
  | done result, f => f result
  | ask q next, f => ask q fun a => bind (next a) f

instance : Monad (Conversation A) where
  pure := done
  bind := bind

/-- One question, and its answer. -/
def question (q : Q) : Conversation A (A q) := ask q done

/-- The exchanges lead the program to the result. -/
inductive Held : Conversation A α → List (Exchange A) → α → Prop
  | done (result : α) : Held (done result) [] result
  | ask {q : Q} {next : A q → Conversation A α} {a : A q} {log : List (Exchange A)} {result : α}
      (rest : Held (next a) log result) : Held (ask q next) (⟨q, a⟩ :: log) result

theorem held_pure_iff {log : List (Exchange A)} {a result : α} :
    Held (pure a : Conversation A α) log result ↔ log = [] ∧ a = result := by
  constructor
  · intro held
    cases held
    exact ⟨rfl, rfl⟩
  · rintro ⟨rfl, rfl⟩
    exact .done a

theorem held_question_iff {log : List (Exchange A)} {q : Q} {a : A q} :
    Held (question q) log a ↔ log = [⟨q, a⟩] := by
  constructor
  · intro held
    cases held with
    | ask rest =>
      cases rest
      rfl
  · rintro rfl
    exact .ask (.done a)

theorem held_bind_iff {c : Conversation A α} {f : α → Conversation A β} {log : List (Exchange A)}
    {result : β} : Held (c >>= f) log result ↔
      ∃ a first rest, log = first ++ rest ∧ Held c first a ∧ Held (f a) rest result := by
  constructor
  · intro held
    induction c generalizing log with
    | done a => exact ⟨a, [], log, rfl, .done a, held⟩
    | ask q next ih =>
      cases held with
      | ask held =>
        obtain ⟨a, first, rest, rfl, before, after⟩ := ih _ held
        exact ⟨a, _ :: first, rest, rfl, .ask before, after⟩
  · rintro ⟨a, first, rest, rfl, before, after⟩
    induction before with
    | done a => exact after
    | ask _ ih => exact .ask (ih after)

/-- The program with one who answers by the number of the question: what is said, and the result. -/
def converse (answer : ℕ → (q : Q) → A q) : ℕ → Conversation A α → List (ℕ × Exchange A) × α
  | _, done result => ([], result)
  | n, ask q next =>
    let rest := converse answer (n + 1) (next (answer n q))
    ((n, ⟨q, answer n q⟩) :: rest.1, rest.2)

theorem held_converse (answer : ℕ → (q : Q) → A q) (n : ℕ) (c : Conversation A α) :
    Held c ((converse answer n c).1.map Prod.snd) (converse answer n c).2 := by
  induction c generalizing n with
  | done result => exact .done result
  | ask q next ih => exact .ask (ih (answer n q) (n + 1))

theorem converse_answered (answer : ℕ → (q : Q) → A q) (n : ℕ) (c : Conversation A α) :
    ∀ x ∈ (converse answer n c).1, x.2.2 = answer x.1 x.2.1 := by
  induction c generalizing n with
  | done result => simp [converse]
  | ask q next ih =>
    intro x member
    rcases List.mem_cons.mp member with rfl | later
    · rfl
    · exact ih (answer n q) (n + 1) x later

/-! ### Programs that may fail -/

/-- A failure ends the program; otherwise it goes on. -/
theorem held_andThen_iff {c : ExceptT ε (Conversation A) α}
    {f : α → ExceptT ε (Conversation A) β} {log : List (Exchange A)} {result : Except ε β} :
    Held (c >>= f).run log result ↔
      (∃ e, Held c.run log (.error e) ∧ result = .error e) ∨
        ∃ a first rest, log = first ++ rest ∧ Held c.run first (.ok a) ∧
          Held (f a).run rest result := by
  show Held (c.run >>= _) log result ↔ _
  rw [held_bind_iff]
  constructor
  · rintro ⟨a, first, rest, rfl, before, after⟩
    cases a with
    | error e =>
      obtain ⟨rfl, rfl⟩ := held_pure_iff.mp after
      exact Or.inl ⟨e, by rwa [List.append_nil], rfl⟩
    | ok a => exact Or.inr ⟨a, first, rest, rfl, before, after⟩
  · rintro (⟨e, failed, rfl⟩ | ⟨a, first, rest, rfl, before, after⟩)
    · exact ⟨.error e, log, [], by rw [List.append_nil], failed, .done _⟩
    · exact ⟨.ok a, first, rest, rfl, before, after⟩

/-- A failure is handled, and then forgotten. -/
theorem held_recover_iff {c : ExceptT ε (Conversation A) α}
    {f : ε → ExceptT ε (Conversation A) α} {log : List (Exchange A)} {result : Except ε α} :
    Held (tryCatch c f).run log result ↔
      (∃ a, Held c.run log (.ok a) ∧ result = .ok a) ∨
        ∃ e first rest, log = first ++ rest ∧ Held c.run first (.error e) ∧
          Held (f e).run rest result := by
  show Held (c.run >>= _) log result ↔ _
  rw [held_bind_iff]
  constructor
  · rintro ⟨a, first, rest, rfl, before, after⟩
    cases a with
    | ok a =>
      obtain ⟨rfl, rfl⟩ := held_pure_iff.mp after
      exact Or.inl ⟨a, by rwa [List.append_nil], rfl⟩
    | error e => exact Or.inr ⟨e, first, rest, rfl, before, after⟩
  · rintro (⟨a, accepted, rfl⟩ | ⟨e, first, rest, rfl, before, after⟩)
    · exact ⟨.ok a, log, [], by rw [List.append_nil], accepted, .done _⟩
    · exact ⟨.error e, first, rest, rfl, before, after⟩

/-- A step that asks nothing. -/
theorem held_liftExcept_iff {log : List (Exchange A)} {computed result : Except ε α} :
    Held (liftExcept computed : ExceptT ε (Conversation A) α).run log result ↔
      log = [] ∧ computed = result := by
  cases computed with
  | ok a => exact held_pure_iff
  | error e => exact held_pure_iff

/-- One question, whose answer is accepted or refused. -/
def inquiry (q : Q) (read : A q → Except ε α) : ExceptT ε (Conversation A) α := do
  let answer ← (question q : Conversation A (A q))
  liftExcept (read answer)

theorem held_inquiry_iff {q : Q} {read : A q → Except ε α} {log : List (Exchange A)}
    {result : Except ε α} :
    Held (inquiry q read).run log result ↔ ∃ a, log = [⟨q, a⟩] ∧ read a = result := by
  have lifted : (inquiry q read).run = question q >>= fun a =>
      (liftExcept (read a) : ExceptT ε (Conversation A) α).run := rfl
  rw [lifted, held_bind_iff]
  constructor
  · rintro ⟨a, first, rest, rfl, asked, computed⟩
    obtain rfl := held_question_iff.mp asked
    obtain ⟨rfl, same⟩ := held_liftExcept_iff.mp computed
    exact ⟨a, rfl, same⟩
  · rintro ⟨a, rfl, same⟩
    exact ⟨a, [⟨q, a⟩], [], rfl, held_question_iff.mpr rfl, held_liftExcept_iff.mpr ⟨rfl, same⟩⟩

/-! ### Asking again -/

/-- The program again after each of its failures, `n` times in all; the last failure stands. -/
def tries (c : ExceptT ε (Conversation A) α) : ε → ℕ → ExceptT ε (Conversation A) α
  | e, 0 => throw e
  | _, n + 1 => tryCatch c fun e => tries c e n

theorem held_tries_succ_iff {c : ExceptT ε (Conversation A) α} {e : ε} {n : ℕ}
    {log : List (Exchange A)} {result : Except ε α} :
    Held (tries c e (n + 1)).run log result ↔
      (∃ a, Held c.run log (.ok a) ∧ result = .ok a) ∨
        ∃ e first rest, log = first ++ rest ∧ Held c.run first (.error e) ∧
          Held (tries c e n).run rest result :=
  held_recover_iff

/-- The same question again and again: refused answers, and then an accepted one, if there is one
among the attempts. -/
theorem held_tries {q : Q} {read : A q → Except ε α} {e : ε} {n : ℕ} {log : List (Exchange A)}
    {result : Except ε α} (held : Held (tries (inquiry q read) e n).run log result) :
    ∃ refused : List (A q), (∀ a ∈ refused, ∃ e, read a = .error e) ∧
      ((∃ a v, refused.length < n ∧ read a = .ok v ∧ result = .ok v ∧
          log = refused.map (Sigma.mk q) ++ [⟨q, a⟩]) ∨
        ∃ e, refused.length = n ∧ result = .error e ∧ log = refused.map (Sigma.mk q)) := by
  induction n generalizing log e with
  | zero =>
    obtain ⟨rfl, rfl⟩ := held_pure_iff.mp held
    exact ⟨[], by simp, Or.inr ⟨e, rfl, rfl, rfl⟩⟩
  | succ n ih =>
    rcases held_tries_succ_iff.mp held with ⟨v, asked, rfl⟩ | ⟨e', first, rest, rfl, asked, again⟩
    · obtain ⟨a, rfl, accepts⟩ := held_inquiry_iff.mp asked
      exact ⟨[], by simp, Or.inl ⟨a, v, by simp, accepts, rfl, rfl⟩⟩
    · obtain ⟨a, rfl, refuses⟩ := held_inquiry_iff.mp asked
      obtain ⟨refused, all, ended⟩ := ih again
      refine ⟨a :: refused, by simpa using ⟨⟨e', refuses⟩, all⟩, ?_⟩
      rcases ended with ⟨b, v, few, accepts, rfl, rfl⟩ | ⟨e, whole, rfl, rfl⟩
      · exact Or.inl ⟨b, v, by simpa using few, accepts, rfl, rfl⟩
      · exact Or.inr ⟨e, by simpa using whole, rfl, rfl⟩

/-- Answers may be changed as long as what is read from them changes alike. -/
theorem held_tries_map {q : Q} {read : A q → Except ε α} {g : ∀ q, A q → A q} {h : α → α}
    (same : ∀ a, read (g q a) = (read a).map h) {e : ε} {n : ℕ} {log : List (Exchange A)}
    {result : Except ε α} (held : Held (tries (inquiry q read) e n).run log result) :
    Held (tries (inquiry q read) e n).run (log.map fun x => ⟨x.1, g x.1 x.2⟩) (result.map h) := by
  induction n generalizing log e with
  | zero =>
    obtain ⟨rfl, rfl⟩ := held_pure_iff.mp held
    exact .done _
  | succ n ih =>
    rw [held_tries_succ_iff] at held ⊢
    rcases held with ⟨v, asked, rfl⟩ | ⟨e', first, rest, rfl, asked, again⟩
    · obtain ⟨a, rfl, accepts⟩ := held_inquiry_iff.mp asked
      exact Or.inl ⟨h v, held_inquiry_iff.mpr ⟨g q a, rfl, by rw [same, accepts]; rfl⟩, rfl⟩
    · obtain ⟨a, rfl, refuses⟩ := held_inquiry_iff.mp asked
      exact Or.inr ⟨e', [⟨q, g q a⟩], _, rfl,
        held_inquiry_iff.mpr ⟨g q a, rfl, by rw [same, refuses]; rfl⟩, ih again⟩

/-! ### How much is asked -/

/-- Every run asks at most `n` questions. -/
def AsksAtMost (n : ℕ) (c : Conversation A α) : Prop :=
  ∀ log result, Held c log result → log.length ≤ n

namespace AsksAtMost

theorem andThen {m n : ℕ} {c : ExceptT ε (Conversation A) α}
    {f : α → ExceptT ε (Conversation A) β} (first : AsksAtMost m c.run)
    (second : ∀ a, AsksAtMost n (f a).run) : AsksAtMost (m + n) (c >>= f).run := by
  intro log result held
  rcases held_andThen_iff.mp held with ⟨e, failed, rfl⟩ | ⟨a, before, after, rfl, ran, goes⟩
  · have few := first log _ failed
    omega
  · have few := first before _ ran
    have others := second a after _ goes
    rw [List.length_append]
    omega

theorem recover {m n : ℕ} {c : ExceptT ε (Conversation A) α}
    {f : ε → ExceptT ε (Conversation A) α} (first : AsksAtMost m c.run)
    (second : ∀ e, AsksAtMost n (f e).run) : AsksAtMost (m + n) (tryCatch c f).run := by
  intro log result held
  rcases held_recover_iff.mp held with ⟨a, ran, rfl⟩ | ⟨e, before, after, rfl, failed, goes⟩
  · have few := first log _ ran
    omega
  · have few := first before _ failed
    have others := second e after _ goes
    rw [List.length_append]
    omega

theorem mono {m n : ℕ} {c : Conversation A α} (few : AsksAtMost m c) (below : m ≤ n) :
    AsksAtMost n c :=
  fun log result held => Nat.le_trans (few log result held) below

theorem liftExcept (computed : Except ε α) :
    AsksAtMost 0 (liftExcept computed : ExceptT ε (Conversation A) α).run := by
  intro log result held
  obtain ⟨rfl, -⟩ := held_liftExcept_iff.mp held
  exact Nat.le_refl 0

theorem tries (q : Q) (read : A q → Except ε α) (e : ε) (n : ℕ) :
    AsksAtMost n (tries (inquiry q read) e n).run := by
  intro log result held
  obtain ⟨refused, -, ⟨a, v, few, -, -, rfl⟩ | ⟨e', all, -, rfl⟩⟩ := held_tries held
  · simp only [List.length_append, List.length_map, List.length_singleton]
    omega
  · simp only [List.length_map]
    omega

end AsksAtMost

/-! ### Answers that count -/

/-- Every question is asked up to `n` times, as long as its answer is one of those refused. -/
inductive Retrying (refuses : (q : Q) → A q → Prop) (n : ℕ) :
    {α : Type} → ExceptT ε (Conversation A) α → Prop
  | computed {α : Type} (result : Except ε α) : Retrying refuses n (liftExcept result)
  | tries {α : Type} {q : Q} {read : A q → Except ε α} (e : ε)
      (refused : ∀ a, (∃ e, read a = .error e) → refuses q a)
      (accepted : ∀ a, (∃ v, read a = .ok v) → ¬refuses q a) :
      Retrying refuses n (tries (inquiry q read) e n)
  | andThen {α β : Type} {c : ExceptT ε (Conversation A) α} {f : α → ExceptT ε (Conversation A) β}
      (first : Retrying refuses n c) (second : ∀ a, Retrying refuses n (f a)) :
      Retrying refuses n (c >>= f)
  | recover {α : Type} {c : ExceptT ε (Conversation A) α} {f : ε → ExceptT ε (Conversation A) α}
      (first : Retrying refuses n c) (second : ∀ e, Retrying refuses n (f e)) :
      Retrying refuses n (tryCatch c f)

/-- Somewhere one question is refused `n` times in a row. -/
def GaveUp (refuses : (q : Q) → A q → Prop) (n : ℕ) (log : List (Exchange A)) : Prop :=
  ∃ before q after, ∃ refused : List (A q), refused.length = n ∧ (∀ a ∈ refused, refuses q a) ∧
    log = before ++ refused.map (Sigma.mk q) ++ after

theorem GaveUp.within {refuses : (q : Q) → A q → Prop} {n : ℕ} {log : List (Exchange A)}
    (gaveUp : GaveUp refuses n log) (before after : List (Exchange A)) :
    GaveUp refuses n (before ++ log ++ after) := by
  obtain ⟨first, q, last, refused, all, refuses, rfl⟩ := gaveUp
  exact ⟨before ++ first, q, last ++ after, refused, all, refuses, by simp⟩

/-- Unless it gave up, the program is led to its result by the answers it accepted alone. -/
theorem Retrying.settles {refuses : (q : Q) → A q → Prop} {n : ℕ}
    {c : ExceptT ε (Conversation A) α} (retrying : Retrying refuses n c) (some : 0 < n)
    {log : List (Exchange A)} {result : Except ε α} (held : Held c.run log result) :
    GaveUp refuses n log ∨
      ∃ accepted, accepted.Sublist log ∧ (∀ x ∈ accepted, ¬refuses x.1 x.2) ∧
        Held c.run accepted result := by
  -- both parts of a sequence are settled, or one of them gave up
  have joined {α β : Type} {c : ExceptT ε (Conversation A) α} {d : ExceptT ε (Conversation A) β}
      {e : ExceptT ε (Conversation A) β} {first rest : List (Exchange A)} {a : Except ε α}
      {b : Except ε β} (joins : ∀ {l m}, Held c.run l a → Held d.run m b → Held e.run (l ++ m) b)
      (one : GaveUp refuses n first ∨ ∃ accepted, accepted.Sublist first ∧
        (∀ x ∈ accepted, ¬refuses x.1 x.2) ∧ Held c.run accepted a)
      (two : GaveUp refuses n rest ∨ ∃ accepted, accepted.Sublist rest ∧
        (∀ x ∈ accepted, ¬refuses x.1 x.2) ∧ Held d.run accepted b) :
      GaveUp refuses n (first ++ rest) ∨ ∃ accepted, accepted.Sublist (first ++ rest) ∧
        (∀ x ∈ accepted, ¬refuses x.1 x.2) ∧ Held e.run accepted b := by
    rcases one with gaveUp | ⟨accepted, kept, counts, alone⟩
    · exact Or.inl (by simpa using gaveUp.within [] rest)
    rcases two with gaveUp | ⟨later, keptLater, countsLater, onward⟩
    · exact Or.inl (by simpa using gaveUp.within first [])
    refine Or.inr ⟨accepted ++ later, kept.append keptLater, ?_, joins alone onward⟩
    intro x member
    exact (List.mem_append.mp member).elim (counts x) (countsLater x)
  induction retrying generalizing log with
  | computed computed =>
    obtain ⟨rfl, rfl⟩ := held_liftExcept_iff.mp held
    exact Or.inr ⟨[], List.Sublist.refl [], by simp, held⟩
  | @tries _ q read e refused accepted =>
    obtain ⟨failed, all, ⟨a, v, few, accepts, rfl, rfl⟩ | ⟨e', whole, rfl, rfl⟩⟩ := held_tries held
    · refine Or.inr ⟨[⟨q, a⟩], List.sublist_append_right _ _, ?_, ?_⟩
      · simpa using accepted a ⟨v, accepts⟩
      · -- a first attempt that is accepted is the only one
        obtain ⟨m, rfl⟩ : ∃ m, n = m + 1 := ⟨n - 1, by omega⟩
        exact held_tries_succ_iff.mpr (Or.inl ⟨v, held_inquiry_iff.mpr ⟨a, rfl, accepts⟩, rfl⟩)
    · exact Or.inl ⟨[], q, [], failed, whole, fun a member => refused a (all a member), by simp⟩
  | andThen first second firstIh secondIh =>
    rcases held_andThen_iff.mp held with ⟨e, failed, rfl⟩ | ⟨a, before, after, rfl, ran, goes⟩
    · rcases firstIh failed with gaveUp | ⟨accepted, kept, counts, alone⟩
      · exact Or.inl gaveUp
      · exact Or.inr ⟨accepted, kept, counts, held_andThen_iff.mpr (Or.inl ⟨e, alone, rfl⟩)⟩
    · exact joined (fun alone onward => held_andThen_iff.mpr (Or.inr ⟨a, _, _, rfl, alone, onward⟩))
        (firstIh ran) (secondIh a goes)
  | recover first second firstIh secondIh =>
    rcases held_recover_iff.mp held with ⟨a, ran, rfl⟩ | ⟨e, before, after, rfl, failed, goes⟩
    · rcases firstIh ran with gaveUp | ⟨accepted, kept, counts, alone⟩
      · exact Or.inl gaveUp
      · exact Or.inr ⟨accepted, kept, counts, held_recover_iff.mpr (Or.inl ⟨a, alone, rfl⟩)⟩
    · exact joined (fun alone onward => held_recover_iff.mpr (Or.inr ⟨e, _, _, rfl, alone, onward⟩))
        (firstIh failed) (secondIh e goes)

end Conversation

end Machine
