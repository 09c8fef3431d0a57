import TickLiq.Machine.Loop

/-!
# Loops that collect

A step that only appends what its element brings makes a loop that does the same. Such a
loop returns exactly when every element does, and then with their rows in order.
-/
namespace Machine

variable {ε α β : Type}

/-- The step appends the `rows` of its element, whatever was collected before. -/
def Appends (step : ℕ → List β → α → Except ε (List β)) (rows : α → Except ε (List β)) : Prop :=
  ∀ i out a, step i out a = (rows a).map (out ++ ·)

/-- What is left of an outcome when its failure is let go. -/
def collected : Except ε (List β) → List β
  | .ok rows => rows
  | .error _ => []

variable {step : ℕ → List β → α → Except ε (List β)} {rows : α → Except ε (List β)}

theorem loop_singleton {σ : Type} (step : ℕ → σ → α → Except ε σ) (i : ℕ) (s : σ) (a : α) :
    loop step i s [a] = step i s a := by
  simp only [loop]
  cases step i s a with
  | ok t => rfl
  | error e => rfl

theorem loop_collects (appends : Appends step rows) {as : List α}
    (each : ∀ a ∈ as, ∃ r, rows a = .ok r) (i : ℕ) (out : List β) :
    loop step i out as = .ok (out ++ as.flatMap fun a => collected (rows a)) := by
  induction as generalizing i out with
  | nil => simp [loop]
  | cons a as ih =>
    obtain ⟨r, here⟩ := each a (List.mem_cons_self ..)
    have stepped : step i out a = .ok (out ++ r) := by rw [appends, here]; rfl
    have rest := ih (fun b member => each b (List.mem_cons_of_mem a member)) (i + 1) (out ++ r)
    rw [List.flatMap_cons, here, collected, ← List.append_assoc]
    exact loop_cons.mpr ⟨_, stepped, rest⟩

theorem loop_collects_iff (appends : Appends step rows) {as : List α} (i : ℕ) (out : List β) :
    (∃ t, loop step i out as = .ok t) ↔ ∀ a ∈ as, ∃ r, rows a = .ok r := by
  constructor
  · rintro ⟨t, returned⟩ a member
    obtain ⟨j, before, after, stepped⟩ := loop_each returned a member
    -- a failing element fails whatever was collected before it
    rw [appends] at stepped
    cases here : rows a with
    | ok r => exact ⟨r, rfl⟩
    | error e =>
      rw [here] at stepped
      cases stepped
  · intro each
    exact ⟨_, loop_collects appends each i out⟩

/-- A loop over appending steps is itself one that appends. -/
theorem loop_appends (appends : Appends step rows) (as : List α) (i : ℕ) (out : List β) :
    loop step i out as = (loop step 0 [] as).map (out ++ ·) := by
  induction as generalizing i out with
  | nil => simp [loop, Except.map]
  | cons a as ih =>
    simp only [loop, appends i out a, appends 0 [] a]
    cases rows a with
    | error e => rfl
    | ok r =>
      -- both go on from the same rows, behind different beginnings
      have left := ih (i + 1) (out ++ r)
      have right := ih 1 r
      simp only [Except.map, ok_bind, List.nil_append, left, right]
      cases loop step 0 [] as with
      | error e => rfl
      | ok rest => simp [List.append_assoc]

end Machine
