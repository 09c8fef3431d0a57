import Mathlib.Data.List.Induction

/-!
# Runs of labelled step functions

A system is a partial step function `step : σ → ε → Option σ`: the event decides
who moves and how every choice is resolved, `none` says that the event is not
enabled. `run` plays a list of events. The rules below carry a fact about one
step to a fact about every run: plain invariants, invariants that also speak of
the events played so far, and invariants of runs whose every step meets a guard.
Total step functions are played with `after`.
-/
namespace Machine

variable {σ ε : Type*}

/-- Play the events in order; `none` as soon as one of them is not enabled. -/
def run (step : σ → ε → Option σ) : σ → List ε → Option σ
  | s, [] => some s
  | s, e :: es => (step s e).bind fun t => run step t es

@[simp] theorem run_nil (step : σ → ε → Option σ) (s : σ) : run step s [] = some s := rfl

theorem run_cons_some (step : σ → ε → Option σ) (s t : σ) (e : ε) (es : List ε) :
    run step s (e :: es) = some t ↔ ∃ u, step s e = some u ∧ run step u es = some t := by
  simp only [run, Option.bind_eq_some_iff]

theorem run_append (step : σ → ε → Option σ) (s : σ) (es fs : List ε) :
    run step s (es ++ fs) = (run step s es).bind fun u => run step u fs := by
  induction es generalizing s with
  | nil => rfl
  | cons e es ih =>
    simp only [List.cons_append, run]
    cases step s e with
    | none => rfl
    | some u => exact ih u

theorem run_append_some (step : σ → ε → Option σ) (s t : σ) (es fs : List ε) :
    run step s (es ++ fs) = some t ↔ ∃ u, run step s es = some u ∧ run step u fs = some t := by
  rw [run_append, Option.bind_eq_some_iff]

/-- The last event of a run is a step from the state its prefix reaches. -/
theorem run_concat_some (step : σ → ε → Option σ) (s t : σ) (es : List ε) (e : ε) :
    run step s (es ++ [e]) = some t ↔ ∃ u, run step s es = some u ∧ step u e = some t := by
  simp only [run_append_some, run_cons_some, run_nil, Option.some.injEq, exists_eq_right]

/-- A run through `p`, then `e`, then `q` passes through a state before and after `e`. -/
theorem run_split (step : σ → ε → Option σ) (s t : σ) (p q : List ε) (e : ε) :
    run step s (p ++ e :: q) = some t ↔
      ∃ u v, run step s p = some u ∧ step u e = some v ∧ run step v q = some t := by
  simp only [run_append_some, run_cons_some]
  constructor
  · rintro ⟨u, before, v, here, later⟩
    exact ⟨u, v, before, here, later⟩
  · rintro ⟨u, v, before, here, later⟩
    exact ⟨u, before, v, here, later⟩

/-! ### Invariants -/

theorem run_invariant (step : σ → ε → Option σ) (P : σ → Prop)
    (preserved : ∀ s e t, P s → step s e = some t → P t)
    (s t : σ) (es : List ε) (played : run step s es = some t) (initial : P s) : P t := by
  induction es generalizing s with
  | nil =>
    cases played
    exact initial
  | cons e es ih =>
    obtain ⟨u, first, rest⟩ := (run_cons_some step s t e es).mp played
    exact ih u rest (preserved s e u initial first)

/-- An invariant may mention the events played so far. -/
theorem run_history (step : σ → ε → Option σ) (s : σ) (P : List ε → σ → Prop) (initial : P [] s)
    (preserved : ∀ es u e t, run step s es = some u → P es u → step u e = some t →
      P (es ++ [e]) t)
    (es : List ε) (t : σ) (played : run step s es = some t) : P es t := by
  -- from the back, so that the last event steps from the state the rest has led to
  induction es using List.reverseRecOn generalizing t with
  | nil =>
    cases played
    exact initial
  | append_singleton es e ih =>
    obtain ⟨u, before, last⟩ := (run_concat_some step s t es e).mp played
    exact preserved es u e t before (ih u before) last

/-! ### Guarded runs -/

/-- Every step of the run is taken in a state that allows it. -/
def Guarded (step : σ → ε → Option σ) (ok : σ → ε → Prop) : σ → List ε → Prop
  | _, [] => True
  | s, e :: es => ok s e ∧ ∀ t, step s e = some t → Guarded step ok t es

instance Guarded.decidable (step : σ → ε → Option σ) (ok : σ → ε → Prop)
    [∀ s e, Decidable (ok s e)] : ∀ s es, Decidable (Guarded step ok s es)
  | _, [] => isTrue trivial
  | s, e :: es =>
    have : Decidable (∀ t, step s e = some t → Guarded step ok t es) :=
      match step s e with
      | none => isTrue (by rintro _ ⟨⟩)
      | some t => @decidable_of_iff _ _ (by simp) (Guarded.decidable step ok t es)
    inferInstanceAs (Decidable (_ ∧ _))

theorem guarded_of_forall (step : σ → ε → Option σ) (ok : σ → ε → Prop) (s : σ) (es : List ε)
    (always : ∀ e ∈ es, ∀ u, ok u e) : Guarded step ok s es := by
  induction es generalizing s with
  | nil => trivial
  | cons e es ih =>
    exact ⟨always e List.mem_cons_self s,
      fun t _ => ih t fun later member => always later (List.mem_cons_of_mem e member)⟩

theorem guarded_append (step : σ → ε → Option σ) (ok : σ → ε → Prop) (s u : σ) (es fs : List ε)
    (before : run step s es = some u) :
    Guarded step ok s (es ++ fs) ↔ Guarded step ok s es ∧ Guarded step ok u fs := by
  induction es generalizing s with
  | nil =>
    cases before
    simp [Guarded]
  | cons first es ih =>
    obtain ⟨v, here, rest⟩ := (run_cons_some step s u first es).mp before
    simp only [List.cons_append, Guarded, here, Option.some.injEq, forall_eq', ih v rest,
      and_assoc]

theorem guarded_concat (step : σ → ε → Option σ) (ok : σ → ε → Prop) (s u : σ) (es : List ε)
    (e : ε) (before : run step s es = some u) :
    Guarded step ok s (es ++ [e]) ↔ Guarded step ok s es ∧ ok u e := by
  simp [guarded_append step ok s u es [e] before, Guarded]

theorem guarded_append_left (step : σ → ε → Option σ) (ok : σ → ε → Prop) (s : σ) (es fs : List ε)
    (guarded : Guarded step ok s (es ++ fs)) : Guarded step ok s es := by
  induction es generalizing s with
  | nil => trivial
  | cons e es ih => exact ⟨guarded.1, fun t moved => ih t (guarded.2 t moved)⟩

theorem guarded_invariant (step : σ → ε → Option σ) (ok : σ → ε → Prop) (P : σ → Prop)
    (preserved : ∀ s e t, P s → ok s e → step s e = some t → P t)
    (s t : σ) (es : List ε) (played : run step s es = some t) (guarded : Guarded step ok s es)
    (initial : P s) : P t := by
  induction es generalizing s with
  | nil =>
    cases played
    exact initial
  | cons e es ih =>
    obtain ⟨u, first, rest⟩ := (run_cons_some step s t e es).mp played
    exact ih u rest (guarded.2 u first) (preserved s e u initial guarded.1 first)

/-- A run is guarded exactly when no decomposition of it exhibits a forbidden step. -/
theorem guarded_iff_split (step : σ → ε → Option σ) (ok : σ → ε → Prop) (s : σ) (es : List ε) :
    Guarded step ok s es ↔
      ∀ p e q, es = p ++ e :: q → ∀ u, run step s p = some u → ok u e := by
  induction es generalizing s with
  | nil => simp [Guarded]
  | cons first es ih =>
    -- by the prefix: the empty one exhibits the first step, any other starts with it
    constructor
    · rintro ⟨here, later⟩ p e q split u before
      cases p with
      | nil =>
        cases before
        obtain ⟨rfl, -⟩ := List.cons.inj split
        exact here
      | cons head p =>
        obtain ⟨rfl, rest⟩ := List.cons.inj split
        obtain ⟨v, moved, onward⟩ := (run_cons_some step s u first p).mp before
        exact (ih v).mp (later v moved) p e q rest u onward
    · intro allowed
      refine ⟨allowed [] first es rfl s rfl, fun v moved => (ih v).mpr ?_⟩
      intro p e q split u before
      exact allowed (first :: p) e q (by rw [split, List.cons_append]) u
        ((run_cons_some step s u first p).mpr ⟨v, moved, before⟩)

/-! ### Events of a run -/

/-- Some event of the run was played in a state with `Q`. -/
def Occurs (step : σ → ε → Option σ) (s : σ) (es : List ε) (Q : σ → ε → Prop) : Prop :=
  ∃ p e q u, es = p ++ e :: q ∧ run step s p = some u ∧ Q u e

theorem not_occurs_nil (step : σ → ε → Option σ) (s : σ) (Q : σ → ε → Prop) :
    ¬ Occurs step s [] Q := by
  rintro ⟨p, e, q, u, split, -⟩
  simp at split

theorem occurs_concat (step : σ → ε → Option σ) (s u : σ) (es : List ε) (e : ε)
    (Q : σ → ε → Prop) (before : run step s es = some u) :
    Occurs step s (es ++ [e]) Q ↔ Occurs step s es Q ∨ Q u e := by
  constructor
  · rintro ⟨p, f, q, v, split, reached, holds⟩
    -- either the event is the last one, or something follows it and it lies in `es`
    rcases List.eq_nil_or_concat q with rfl | ⟨q, last, rfl⟩
    · obtain ⟨rfl, same⟩ := List.append_inj' split rfl
      cases same
      obtain rfl := Option.some.inj (before.symm.trans reached)
      exact Or.inr holds
    · have shorter : es ++ [e] = (p ++ f :: q) ++ [last] := by
        rw [split, List.append_assoc, List.cons_append, List.concat_eq_append]
      obtain ⟨rfl, -⟩ := List.append_inj' shorter rfl
      exact Or.inl ⟨p, f, q, v, rfl, reached, holds⟩
  · rintro (⟨p, f, q, v, rfl, reached, holds⟩ | holds)
    · exact ⟨p, f, q ++ [e], v, by simp, reached, holds⟩
    · exact ⟨es, e, [], u, rfl, before, holds⟩

theorem occurs_cons (step : σ → ε → Option σ) (s : σ) (e : ε) (es : List ε) (Q : σ → ε → Prop) :
    Occurs step s (e :: es) Q ↔ Q s e ∨ ∃ u, step s e = some u ∧ Occurs step u es Q := by
  constructor
  · rintro ⟨p, f, q, v, split, reached, holds⟩
    cases p with
    | nil =>
      cases reached
      obtain ⟨rfl, -⟩ := List.cons.inj split
      exact Or.inl holds
    | cons head p =>
      obtain ⟨rfl, rest⟩ := List.cons.inj split
      obtain ⟨u, moved, onward⟩ := (run_cons_some step s v e p).mp reached
      exact Or.inr ⟨u, moved, p, f, q, v, rest, onward, holds⟩
  · rintro (holds | ⟨u, moved, p, f, q, v, rfl, reached, holds⟩)
    · exact ⟨[], e, es, s, rfl, rfl, holds⟩
    · exact ⟨e :: p, f, q, v, rfl, (run_cons_some step s v e p).mpr ⟨u, moved, reached⟩, holds⟩

/-- What some events set and nothing else changes is what was set last. -/
theorem run_last_write {β : Type*} (step : σ → ε → Option σ) (view : σ → β)
    (writes : σ → ε → Option β)
    (effect : ∀ s e t, step s e = some t → view t = (writes s e).getD (view s))
    (s t : σ) (es : List ε) (played : run step s es = some t) :
    (view t = view s ∧ ¬Occurs step s es fun u e => (writes u e).isSome = true) ∨
      ∃ p e q u v b, es = p ++ e :: q ∧ run step s p = some u ∧ step u e = some v ∧
        writes u e = some b ∧ view t = b ∧
        ¬Occurs step v q fun u e => (writes u e).isSome = true := by
  induction es generalizing s with
  | nil =>
    cases played
    exact Or.inl ⟨rfl, not_occurs_nil step _ _⟩
  | cons e es ih =>
    obtain ⟨v, first, rest⟩ := (run_cons_some step s t e es).mp played
    rcases ih v rest with ⟨same, quiet⟩ | ⟨p, f, q, u, w, b, rfl, reached, later⟩
    -- no write behind this event: it is the last one, or there is none at all
    · have effect := effect s e v first
      cases wrote : writes s e with
      | some b =>
        rw [wrote] at effect
        exact Or.inr ⟨[], e, es, s, v, b, rfl, rfl, first, wrote, same.trans effect, quiet⟩
      | none =>
        rw [wrote] at effect
        refine Or.inl ⟨same.trans effect, ?_⟩
        rw [occurs_cons]
        rintro (here | ⟨u, moved, occurs⟩)
        · simp [wrote] at here
        · cases moved.symm.trans first
          exact quiet occurs
    -- a later write is the last one of the longer run too
    · have longer := (run_cons_some step s u e p).mpr ⟨v, first, reached⟩
      exact Or.inr ⟨e :: p, f, q, u, w, b, rfl, longer, later⟩

/-! ### Books of a run -/

/-- What is noted along a run: every event is seen with the state it is played in. -/
def books {β : Type*} (step : σ → ε → Option σ) (note : β → σ → ε → β) : β → σ → List ε → β
  | b, _, [] => b
  | b, s, e :: es =>
    match step s e with
    | some t => books step note (note b s e) t es
    | none => note b s e

@[simp] theorem books_nil {β : Type*} (step : σ → ε → Option σ) (note : β → σ → ε → β) (b : β)
    (s : σ) : books step note b s [] = b := rfl

theorem books_concat {β : Type*} (step : σ → ε → Option σ) (note : β → σ → ε → β) (b : β)
    {s u : σ} {es : List ε} (e : ε) (before : run step s es = some u) :
    books step note b s (es ++ [e]) = note (books step note b s es) u e := by
  induction es generalizing s b with
  | nil =>
    cases before
    simp only [List.nil_append, books]
    cases step u e <;> rfl
  | cons first es ih =>
    obtain ⟨v, here, rest⟩ := (run_cons_some step s u first es).mp before
    simp only [List.cons_append, books, here]
    exact ih (note b s first) rest

/-- How many events of the run were played in a state with `p`. -/
def tally (step : σ → ε → Option σ) (p : σ → ε → Bool) (s : σ) (es : List ε) : ℕ :=
  books step (fun n s e => n + if p s e then 1 else 0) 0 s es

@[simp] theorem tally_nil (step : σ → ε → Option σ) (p : σ → ε → Bool) (s : σ) :
    tally step p s [] = 0 := rfl

theorem tally_concat (step : σ → ε → Option σ) (p : σ → ε → Bool) {s u : σ} {es : List ε} (e : ε)
    (before : run step s es = some u) :
    tally step p s (es ++ [e]) = tally step p s es + if p u e then 1 else 0 :=
  books_concat step _ 0 e before

theorem tally_event (step : σ → ε → Option σ) (p : ε → Bool) {s t : σ} {es : List ε}
    (played : run step s es = some t) : tally step (fun _ e => p e) s es = es.countP p := by
  refine run_history step s (fun es _ => tally step (fun _ e => p e) s es = es.countP p) rfl ?_
    es t played
  intro es u e v before ih moved
  rw [tally_concat step _ e before, ih, List.countP_append, List.countP_singleton]

/-! ### Total step functions -/

/-- The state after the first `n` events of `es`. -/
def after (step : σ → ε → σ) (s : σ) (es : List ε) (n : ℕ) : σ := (es.take n).foldl step s

@[simp] theorem after_zero (step : σ → ε → σ) (s : σ) (es : List ε) :
    after step s es 0 = s := rfl

theorem after_succ (step : σ → ε → σ) (s : σ) (es : List ε) (n : ℕ) (inside : n < es.length) :
    after step s es (n + 1) = step (after step s es n) es[n] := by
  simp only [after, List.take_add_one, List.getElem?_eq_getElem inside, Option.toList_some,
    List.foldl_append, List.foldl_cons, List.foldl_nil]

theorem after_invariant (step : σ → ε → σ) (P : σ → Prop) (preserved : ∀ s e, P s → P (step s e))
    (s : σ) (es : List ε) (initial : P s) (n : ℕ) : P (after step s es n) := by
  induction n with
  | zero => exact initial
  | succ n ih =>
    by_cases inside : n < es.length
    · rw [after_succ step s es n inside]
      exact preserved _ _ ih
    · -- past the end `take` is the whole list, and nothing moves any more
      have done : es.take (n + 1) = es.take n := by
        rw [List.take_of_length_le (by omega), List.take_of_length_le (by omega)]
      simpa only [after, done] using ih

/-- A view of the state that each event updates by its own step function can be
followed on its own. -/
theorem after_view {τ φ : Type*} (step : σ → ε → σ) (view : σ → τ) (label : ε → φ)
    (own : τ → φ → τ) (follows : ∀ s e, view (step s e) = own (view s) (label e))
    (s : σ) (es : List ε) (n : ℕ) :
    view (after step s es n) = after own (view s) (es.map label) n := by
  simp only [after, ← List.map_take]
  induction es.take n generalizing s with
  | nil => rfl
  | cons e es ih => simp only [List.foldl_cons, List.map_cons, ih, follows]

end Machine
