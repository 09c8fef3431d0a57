import Mathlib.Data.List.DropRight

/-!
# Searching in texts

First and last occurrences, and the cuts they make. A pattern that begins with an element
the text before it does not have stands nowhere earlier.
-/
namespace Machine

variable {α : Type} [DecidableEq α]

/-- Where the pattern first stands. -/
def find (pat : List α) : List α → Option ℕ
  | [] => if pat = [] then some 0 else none
  | a :: s => if pat.isPrefixOf (a :: s) then some 0 else (find pat s).map (· + 1)

/-- Where the element last stands. -/
def rfind (c : α) : List α → Option ℕ
  | [] => none
  | a :: s =>
    match rfind c s with
    | some i => some (i + 1)
    | none => if a = c then some 0 else none

def splitOnce (pat s : List α) : Option (List α × List α) :=
  (find pat s).map fun i => (s.take i, s.drop (i + pat.length))

def rsplitOnce (c : α) (s : List α) : Option (List α × List α) :=
  (rfind c s).map fun i => (s.take i, s.drop (i + 1))

/-- The text without the run of `c` at its end. -/
def trimEndMatches (c : α) (s : List α) : List α := s.rdropWhile fun a => decide (a = c)

variable {c : α} {pat xs ys s : List α}

theorem isPrefixOf_ne {a : α} (differ : a ≠ c) : (c :: pat).isPrefixOf (a :: s) = false := by
  simp [List.isPrefixOf, differ.symm]

theorem find_append (absent : c ∉ xs) : find (c :: pat) (xs ++ (c :: pat) ++ ys) = some xs.length := by
  induction xs with
  | nil => simp [find]
  | cons a xs ih =>
    rw [List.mem_cons, not_or] at absent
    obtain ⟨differ, rest⟩ := absent
    have later := ih rest
    simp only [List.cons_append, find, isPrefixOf_ne (Ne.symm differ), List.length_cons] at later ⊢
    rw [later]
    rfl

theorem find_char (absent : c ∉ xs) : find [c] (xs ++ c :: ys) = some xs.length := by
  have found : find [c] (xs ++ [c] ++ ys) = some xs.length := find_append absent
  rwa [List.append_assoc, List.singleton_append] at found

theorem find_absent (absent : c ∉ s) : find (c :: pat) s = none := by
  induction s with
  | nil => simp [find]
  | cons a s ih =>
    rw [List.mem_cons, not_or] at absent
    obtain ⟨differ, rest⟩ := absent
    simp [find, isPrefixOf_ne (Ne.symm differ), ih rest]

theorem rfind_absent (absent : c ∉ s) : rfind c s = none := by
  induction s with
  | nil => rfl
  | cons a s ih =>
    rw [List.mem_cons, not_or] at absent
    obtain ⟨differ, rest⟩ := absent
    simp [rfind, ih rest, Ne.symm differ]

theorem rfind_append (absent : c ∉ ys) : rfind c (xs ++ c :: ys) = some xs.length := by
  induction xs with
  | nil => simp [rfind, rfind_absent absent]
  | cons a xs ih => simp [rfind, ih]

theorem rfind_lt {i : ℕ} (found : rfind c s = some i) : i < s.length := by
  induction s generalizing i with
  | nil => cases found
  | cons a s ih =>
    simp only [rfind] at found
    rw [List.length_cons]
    split at found
    next j later =>
      have inside := ih later
      have same := Option.some.inj found
      omega
    next =>
      split at found
      · have same := Option.some.inj found
        omega
      · cases found

theorem find_le {i : ℕ} (found : find pat s = some i) : i ≤ s.length := by
  induction s generalizing i with
  | nil =>
    simp only [find] at found
    split at found
    · have same := Option.some.inj found
      omega
    · cases found
  | cons a s ih =>
    simp only [find] at found
    rw [List.length_cons]
    split at found
    · have same := Option.some.inj found
      omega
    · obtain ⟨j, later, same⟩ := Option.map_eq_some_iff.mp found
      have inside := ih later
      omega

theorem splitOnce_append (absent : c ∉ xs) :
    splitOnce (c :: pat) (xs ++ (c :: pat) ++ ys) = some (xs, ys) := by
  rw [splitOnce, find_append absent, Option.map_some, ← List.length_append, List.drop_left,
    List.append_assoc, List.take_left]

theorem splitOnce_absent (absent : c ∉ s) : splitOnce (c :: pat) s = none := by
  rw [splitOnce, find_absent absent, Option.map_none]

theorem rsplitOnce_append (absent : c ∉ ys) : rsplitOnce c (xs ++ c :: ys) = some (xs, ys) := by
  rw [rsplitOnce, rfind_append absent, Option.map_some]
  simp

theorem rsplitOnce_absent (absent : c ∉ s) : rsplitOnce c s = none := by
  rw [rsplitOnce, rfind_absent absent, Option.map_none]

/-- The text before the first occurrence, or all of it. -/
theorem take_find : s.take ((find [c] s).getD s.length) = s.takeWhile fun a => decide (a ≠ c) := by
  induction s with
  | nil => simp [find]
  | cons a s ih =>
    by_cases here : a = c
    · subst here
      simp [find]
    · have skip : find [c] (a :: s) = (find [c] s).map (· + 1) := by
        simp [find, isPrefixOf_ne here]
      rw [skip, List.takeWhile_cons_of_pos (by simpa using here), ← ih]
      cases find [c] s with
      | none => simp
      | some i => simp

omit [DecidableEq α] in
/-- Nothing more is taken past the first element that stops. -/
theorem takeWhile_stops {p : α → Bool} (all : ∀ a ∈ xs, p a = true)
    (stops : ∀ a ∈ ys.head?, p a = false) : (xs ++ ys).takeWhile p = xs := by
  rw [List.takeWhile_append_of_pos all]
  cases ys with
  | nil => simp
  | cons a ys => simp [stops a rfl]

omit [DecidableEq α] in
/-- A text in which something stops has a first place where it does. -/
theorem first_stop {p : α → Bool} (stops : ∃ a ∈ s, p a = true) : ∃ xs a ys,
    s = xs ++ a :: ys ∧ (∀ b ∈ xs, p b = false) ∧ p a = true := by
  induction s with
  | nil => simp at stops
  | cons a s ih =>
    cases here : p a with
    | true => exact ⟨[], a, s, rfl, by simp, here⟩
    | false =>
      have later : ∃ b ∈ s, p b = true := by simpa [here] using stops
      obtain ⟨xs, b, ys, split, none, stop⟩ := ih later
      exact ⟨a :: xs, b, ys, by rw [split, List.cons_append], by simpa [here] using none, stop⟩

/-- An element that occurs has a last occurrence. -/
theorem last_occurrence (member : c ∈ s) : ∃ xs ys, s = xs ++ c :: ys ∧ c ∉ ys := by
  induction s with
  | nil => cases member
  | cons a s ih =>
    by_cases later : c ∈ s
    · obtain ⟨xs, ys, split, absent⟩ := ih later
      exact ⟨a :: xs, ys, by rw [split, List.cons_append], absent⟩
    · have here : c = a := (List.mem_cons.mp member).resolve_right later
      exact ⟨[], s, by rw [here, List.nil_append], later⟩

theorem trimEndMatches_padded (last : xs.getLast? ≠ some c) (n : ℕ) :
    trimEndMatches c (xs ++ List.replicate n c) = xs := by
  induction n with
  | zero =>
    rw [List.replicate_zero, List.append_nil]
    apply List.rdropWhile_eq_self_iff.mpr
    intro some ends
    rw [List.getLast?_eq_some_getLast some, of_decide_eq_true ends] at last
    exact last rfl
  | succ n ih =>
    rw [List.replicate_succ', ← List.append_assoc, trimEndMatches, List.rdropWhile_concat_pos]
    · exact ih
    · exact decide_eq_true rfl

/-- Trimming takes a run of `c` off, and all of it. -/
theorem trimEndMatches_eq_iff :
    trimEndMatches c s = xs ↔ xs.getLast? ≠ some c ∧ ∃ n, s = xs ++ List.replicate n c := by
  constructor
  · rintro rfl
    constructor
    · intro ends
      by_cases none : trimEndMatches c s = []
      · rw [none] at ends
        cases ends
      · rw [List.getLast?_eq_some_getLast none] at ends
        exact List.rdropWhile_last_not _ _ none (decide_eq_true (Option.some.inj ends))
    · have run : s.rtakeWhile (fun a => decide (a = c)) =
          List.replicate (s.rtakeWhile fun a => decide (a = c)).length c := by
        apply List.eq_replicate_of_mem
        intro a member
        have taken := List.mem_rtakeWhile_imp (p := fun a => decide (a = c)) member
        exact of_decide_eq_true taken
      refine ⟨(s.rtakeWhile fun a => decide (a = c)).length, ?_⟩
      rw [← run, trimEndMatches, List.rdropWhile_append_rtakeWhile]
  · rintro ⟨last, n, rfl⟩
    exact trimEndMatches_padded last n

end Machine
