import Mathlib.Algebra.Ring.Int.Defs
import Mathlib.Data.List.Induction
import Mathlib.Data.List.Infix
import TickLiq.Machine.Checked

/-!
# Loops over a list that may fail

The step sees how many elements came before, and the first failure ends the loop. A
`mark` tells the steps of interest apart, so that facts about a run may speak of the
elements it has gone through and of the steps marked among them.
-/
namespace Machine

variable {ε σ α : Type}

def loop (step : ℕ → σ → α → Except ε σ) : ℕ → σ → List α → Except ε σ
  | _, s, [] => .ok s
  | i, s, a :: as => do
    let t ← step i s a
    loop step (i + 1) t as

/-- The marks of the steps, up to a failure. -/
def marks (step : ℕ → σ → α → Except ε σ) (mark : σ → σ → Bool) : ℕ → σ → List α → List Bool
  | _, _, [] => []
  | i, s, a :: as =>
    match step i s a with
    | .ok t => mark s t :: marks step mark (i + 1) t as
    | .error _ => []

variable {step : ℕ → σ → α → Except ε σ} {mark : σ → σ → Bool} {i : ℕ} {s t : σ}

theorem loop_cons {a : α} {as : List α} : loop step i s (a :: as) = .ok t ↔
    ∃ u, step i s a = .ok u ∧ loop step (i + 1) u as = .ok t :=
  bind_ok_iff ..

theorem loop_append {as bs : List α} : loop step i s (as ++ bs) = .ok t ↔
    ∃ u, loop step i s as = .ok u ∧ loop step (i + as.length) u bs = .ok t := by
  induction as generalizing i s with
  | nil =>
    constructor
    · intro returned
      exact ⟨s, rfl, returned⟩
    · intro returned
      obtain ⟨u, here, rest⟩ := returned
      cases here
      exact rest
  | cons a as ih =>
    have shift : i + (a :: as).length = i + 1 + as.length := by
      rw [List.length_cons]
      omega
    rw [List.cons_append, loop_cons, shift]
    constructor
    · intro returned
      obtain ⟨u, stepped, rest⟩ := returned
      obtain ⟨v, through, after⟩ := ih.mp rest
      exact ⟨v, loop_cons.mpr ⟨u, stepped, through⟩, after⟩
    · intro returned
      obtain ⟨v, through, after⟩ := returned
      obtain ⟨u, stepped, through⟩ := loop_cons.mp through
      exact ⟨u, stepped, ih.mpr ⟨v, through, after⟩⟩

theorem loop_concat {as : List α} {a : α} : loop step i s (as ++ [a]) = .ok t ↔
    ∃ u, loop step i s as = .ok u ∧ step (i + as.length) u a = .ok t := by
  rw [loop_append]
  constructor
  · intro returned
    obtain ⟨u, through, after⟩ := returned
    obtain ⟨v, stepped, done⟩ := loop_cons.mp after
    cases done
    exact ⟨u, through, stepped⟩
  · intro returned
    obtain ⟨u, through, stepped⟩ := returned
    exact ⟨u, through, loop_cons.mpr ⟨t, stepped, rfl⟩⟩

/-- Where every step returns, so does the loop. -/
theorem loop_total (total : ∀ i s a, ∃ t, step i s a = .ok t) (i : ℕ) (s : σ) (as : List α) :
    ∃ t, loop step i s as = .ok t := by
  induction as generalizing i s with
  | nil => exact ⟨s, rfl⟩
  | cons a as ih =>
    obtain ⟨u, stepped⟩ := total i s a
    obtain ⟨t, rest⟩ := ih (i + 1) u
    exact ⟨t, loop_cons.mpr ⟨u, stepped, rest⟩⟩

/-- Where the loop returns, so did every step. -/
theorem loop_each {as : List α} (returned : loop step i s as = .ok t) :
    ∀ a ∈ as, ∃ j u v, step j u a = .ok v := by
  induction as generalizing i s with
  | nil => simp
  | cons a as ih =>
    obtain ⟨u, stepped, rest⟩ := loop_cons.mp returned
    intro b member
    rcases List.mem_cons.mp member with here | later
    · rw [here]
      exact ⟨i, s, u, stepped⟩
    · exact ih rest b later

/-- A loop that fails has failed at one of its elements. -/
theorem loop_error {as : List α} {e : ε} (failed : loop step i s as = .error e) :
    ∃ j u, ∃ a ∈ as, step j u a = .error e := by
  induction as generalizing i s with
  | nil => cases failed
  | cons a as ih =>
    cases stepped : step i s a with
    | ok u =>
      rw [loop, stepped] at failed
      obtain ⟨j, v, b, member, failed⟩ := ih (i := i + 1) (s := u) failed
      exact ⟨j, v, b, List.mem_cons_of_mem a member, failed⟩
    | error e' =>
      rw [loop, stepped] at failed
      cases failed
      exact ⟨i, s, a, List.mem_cons_self .., stepped⟩

/-- The loop returns exactly when every step that is reached does. -/
theorem loop_returns_iff {as : List α} : (∃ t, loop step i s as = .ok t) ↔
    ∀ seen a later, as = seen ++ a :: later → ∀ u, loop step i s seen = .ok u →
      ∃ v, step (i + seen.length) u a = .ok v := by
  constructor
  · rintro ⟨t, returned⟩ seen a later split u through
    subst split
    obtain ⟨u', through', rest⟩ := loop_append.mp returned
    rw [through] at through'
    cases through'
    obtain ⟨v, stepped, _⟩ := loop_cons.mp rest
    exact ⟨v, stepped⟩
  · intro reached
    induction as generalizing i s with
    | nil => exact ⟨s, rfl⟩
    | cons a as ih =>
      obtain ⟨v, stepped⟩ := reached [] a as rfl s rfl
      obtain ⟨t, rest⟩ := ih (i := i + 1) (s := v) (by
        intro seen b later split u through
        have longer := reached (a :: seen) b later (by rw [split, List.cons_append]) u
          (loop_cons.mpr ⟨v, stepped, through⟩)
        rwa [List.length_cons, Nat.add_comm seen.length, ← Nat.add_assoc] at longer)
      exact ⟨t, loop_cons.mpr ⟨v, stepped, rest⟩⟩

theorem mapM_ok {β : Type} {f : α → Except ε β} {g : α → β} {as : List α}
    (each : ∀ a ∈ as, f a = .ok (g a)) : as.mapM f = .ok (as.map g) := by
  induction as with
  | nil => rfl
  | cons a as ih =>
    rw [List.mapM_cons, each a (List.mem_cons_self ..),
      ih fun b member => each b (List.mem_cons_of_mem a member)]
    rfl

theorem marks_append {as bs : List α} (through : loop step i s as = .ok t) :
    marks step mark i s (as ++ bs) =
      marks step mark i s as ++ marks step mark (i + as.length) t bs := by
  induction as generalizing i s with
  | nil =>
    cases through
    rfl
  | cons a as ih =>
    obtain ⟨u, stepped, rest⟩ := loop_cons.mp through
    have shift : i + (a :: as).length = i + 1 + as.length := by
      rw [List.length_cons]
      omega
    simp only [List.cons_append, marks, stepped, shift, ih rest]

theorem marks_length {as : List α} (through : loop step i s as = .ok t) :
    (marks step mark i s as).length = as.length := by
  induction as generalizing i s with
  | nil => rfl
  | cons a as ih =>
    obtain ⟨u, stepped, rest⟩ := loop_cons.mp through
    simp only [marks, stepped, List.length_cons, ih rest]

/-- The places of a list that is one element longer. -/
theorem forall_split_concat {P : List α → α → Prop} (as : List α) (a : α) :
    (∀ seen b later, as ++ [a] = seen ++ b :: later → P seen b) ↔
      (∀ seen b later, as = seen ++ b :: later → P seen b) ∧ P as a := by
  constructor
  · intro all
    refine ⟨?_, all as a [] rfl⟩
    intro seen b later split
    exact all seen b (later ++ [a]) (by rw [split, List.append_assoc, List.cons_append])
  · intro both seen b later split
    rcases List.eq_nil_or_concat later with empty | ⟨before, c, more⟩
    · rw [empty] at split
      obtain ⟨front, here⟩ := List.append_inj' split rfl
      cases here
      rw [← front]
      exact both.2
    · rw [more, List.concat_eq_append, ← List.cons_append, ← List.append_assoc] at split
      exact both.1 seen b before (List.append_inj' split rfl).1

/-! ### Invariants -/

/-- A fact about the elements gone through, their marks and the state they led to. -/
theorem loop_history (mark : σ → σ → Bool) {P : List (α × Bool) → σ → Prop} {as : List α}
    (initial : P [] s)
    (preserved : ∀ seen u, ∀ a ∈ as, ∀ v, P seen u → step (i + seen.length) u a = .ok v →
      P (seen ++ [(a, mark u v)]) v)
    (returned : loop step i s as = .ok t) : P (as.zip (marks step mark i s as)) t := by
  -- from the back, so that the last element steps from where the others have led
  induction as using List.reverseRecOn generalizing t with
  | nil =>
    cases returned
    exact initial
  | append_singleton as a ih =>
    obtain ⟨u, through, stepped⟩ := loop_concat.mp returned
    have before := ih (fun seen u b member => preserved seen u b
      (List.mem_append_left _ member)) through
    have count : (as.zip (marks step mark i s as)).length = as.length := by
      rw [List.length_zip, marks_length through, Nat.min_self]
    have last : marks step mark (i + as.length) u [a] = [mark u t] := by
      simp only [marks, stepped]
    rw [marks_append through, last, List.zip_append (marks_length through).symm]
    rw [← count] at stepped
    exact preserved _ u a (List.mem_append_right _ (List.mem_singleton_self a)) t before stepped

theorem loop_invariant {P : σ → Prop} {as : List α} (initial : P s)
    (preserved : ∀ i u, ∀ a ∈ as, ∀ v, P u → step i u a = .ok v → P v)
    (returned : loop step i s as = .ok t) : P t :=
  loop_history (fun _ _ => false) (P := fun _ => P) initial
    (fun seen => preserved (i + seen.length)) returned

/-! ### Sums of machine integers -/

/-- Every sum of the first elements, taken from `start`, stays in the word. -/
def PrefixesFit (w : ℕ) (start : ℤ) (xs : List ℤ) : Prop :=
  ∀ ys, ys <+: xs → InRange w (start + ys.sum)

instance (w : ℕ) (start : ℤ) (xs : List ℤ) : Decidable (PrefixesFit w start xs) :=
  decidable_of_iff (∀ ys ∈ xs.inits, InRange w (start + ys.sum))
    (by simp only [PrefixesFit, List.mem_inits])

theorem prefixesFit_nil {w : ℕ} {start : ℤ} (inside : InRange w start) :
    PrefixesFit w start [] := by
  intro ys before
  rw [List.prefix_nil.mp before]
  simpa using inside

theorem prefixesFit_singleton {w : ℕ} {start x : ℤ} (inside : InRange w start)
    (after : InRange w (start + x)) : PrefixesFit w start [x] := by
  intro ys before
  rcases List.prefix_cons_iff.mp before with none | ⟨rest, here, nothing⟩
  · subst none
    simpa using inside
  · rw [here, List.prefix_nil.mp nothing]
    simpa using after

/-- With overflow checks a sum is returned only if every sum on the way fits. -/
theorem loop_addChecked_true {w i : ℕ} {start total : ℤ} {xs : List ℤ} (inside : InRange w start)
    (returned : loop (fun _ sum x => addChecked true w sum x) i start xs = .ok total) :
    PrefixesFit w start xs ∧ start + xs.sum = total := by
  induction xs generalizing i start with
  | nil =>
    cases returned
    exact ⟨prefixesFit_nil inside, by simp⟩
  | cons x xs ih =>
    obtain ⟨next, added, rest⟩ := loop_cons.mp returned
    obtain ⟨fits, same⟩ := checked_true_iff.mp added
    subst same
    obtain ⟨prefixes, sum⟩ := ih fits rest
    constructor
    · intro ys before
      rcases List.prefix_cons_iff.mp before with none | ⟨zs, here, shorter⟩
      · subst none
        simpa using inside
      · rw [here, List.sum_cons, ← Int.add_assoc]
        exact prefixes zs shorter
    · rw [← sum, List.sum_cons, Int.add_assoc]

theorem loop_addChecked (checks : Bool) {w i : ℕ} {start : ℤ} {xs : List ℤ}
    (fits : PrefixesFit w start xs) :
    loop (fun _ sum x => addChecked checks w sum x) i start xs = .ok (start + xs.sum) := by
  induction xs generalizing i start with
  | nil => simp [loop]
  | cons x xs ih =>
    have first : InRange w (start + x) := by
      have one := fits [x] (List.cons_prefix_cons.mpr ⟨rfl, List.nil_prefix⟩)
      rwa [List.sum_singleton] at one
    have rest : PrefixesFit w (start + x) xs := by
      intro ys before
      have longer := fits (x :: ys) (List.cons_prefix_cons.mpr ⟨rfl, before⟩)
      rwa [List.sum_cons, ← Int.add_assoc] at longer
    rw [List.sum_cons, ← Int.add_assoc]
    apply loop_cons.mpr
    exact ⟨start + x, checked_inRange checks first, ih rest⟩

end Machine
