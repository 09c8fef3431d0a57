import Mathlib.Order.Bounds.Basic
import TickLiq.Math.Metrics

/-!
# The drawdown as a minimum over pairs

`max_drawdown` passes over the curve once and keeps the peak so far. On a curve without
negative values its result is the least relative change between any value and a later one.
-/
namespace TickLiq

/-- A relative change from a positive value of the curve to itself or a later value. -/
def RelativeChange (equity : List ℝ) (d : ℝ) : Prop :=
  ∃ (i j : ℕ) (a b : ℝ), i ≤ j ∧ equity[i]? = some a ∧ equity[j]? = some b ∧ 0 < a ∧ d = (b - a) / a

/-- What the loop knows after the values `seen`. -/
structure DrawdownKnown (seen : List ℝ) (state : Option ℝ × ℝ) : Prop where
  fresh : state.1 = none → seen = []
  peak : ∀ p, state.1 = some p → IsGreatest {v | v ∈ seen} p
  least : IsLeast {d | d = 0 ∨ RelativeChange seen d} state.2

theorem relativeChange_concat (seen : List ℝ) (v d : ℝ) : RelativeChange (seen ++ [v]) d ↔
    RelativeChange seen d ∨ ∃ a ∈ seen ++ [v], 0 < a ∧ d = (v - a) / a := by
  constructor
  · rintro ⟨i, j, a, b, order, first, second, positive, change⟩
    -- the change ends before the new value or at it
    rcases lt_or_ge j seen.length with before | last
    · left
      rw [List.getElem?_append_left (by omega)] at first second
      exact ⟨i, j, a, b, order, first, second, positive, change⟩
    · right
      have here : b = v := by
        rw [List.getElem?_append_right last] at second
        have member := List.mem_of_getElem? second
        simpa using member
      exact ⟨a, List.mem_of_getElem? first, positive, here ▸ change⟩
  · rintro (⟨i, j, a, b, order, first, second, positive, change⟩ | ⟨a, member, positive, change⟩)
    · obtain ⟨inside, _⟩ := List.getElem?_eq_some_iff.mp second
      refine ⟨i, j, a, b, order, ?_, ?_, positive, change⟩
      · rw [List.getElem?_append_left (by omega), first]
      · rw [List.getElem?_append_left inside, second]
    · obtain ⟨i, here⟩ := List.mem_iff_getElem?.mp member
      obtain ⟨inside, _⟩ := List.getElem?_eq_some_iff.mp here
      simp only [List.length_append, List.length_singleton] at inside
      refine ⟨i, seen.length, a, v, by omega, here, ?_, positive, change⟩
      simp

theorem raisePeak_greatest {seen : List ℝ} {state : Option ℝ × ℝ}
    (known : DrawdownKnown seen state) (v : ℝ) :
    IsGreatest {x | x ∈ seen ++ [v]} (raisePeak state.1 v) := by
  cases before : state.1 with
  | none =>
    rw [known.fresh before]
    simp [raisePeak, IsGreatest, upperBounds]
  | some p =>
    obtain ⟨member, bound⟩ := known.peak p before
    simp only [raisePeak]
    split
    next higher =>
      refine ⟨by simp, ?_⟩
      intro x inside
      rcases List.mem_append.mp inside with old | new
      · exact (bound old).trans higher.le
      · exact (List.mem_singleton.mp new).le
    next lower =>
      refine ⟨List.mem_append_left _ member, ?_⟩
      intro x inside
      rcases List.mem_append.mp inside with old | new
      · exact bound old
      · rw [List.mem_singleton.mp new]
        exact not_lt.mp lower

/-- From a higher value the fall to the same value is deeper. -/
theorem fall_antitone {a p v : ℝ} (value : 0 ≤ v) (positive : 0 < a) (below : a ≤ p) :
    (v - p) / p ≤ (v - a) / a := by
  have higher : 0 < p := positive.trans_le below
  rw [sub_div, sub_div, div_self higher.ne', div_self positive.ne']
  have quotients : v / p ≤ v / a := div_le_div_of_nonneg_left value positive below
  linarith

/-- One value more: the peak is the value from which the fall to it is deepest. -/
theorem drawdownStep_known {seen : List ℝ} {state : Option ℝ × ℝ}
    (known : DrawdownKnown seen state) {v : ℝ} (value : 0 ≤ v) :
    DrawdownKnown (seen ++ [v]) (drawdownStep state v) := by
  have greatest := raisePeak_greatest known v
  obtain ⟨member, bound⟩ := greatest
  refine ⟨by simp [drawdownStep], ?_, ?_⟩
  · intro p here
    simp only [drawdownStep, Option.some.injEq] at here
    rw [← here]
    exact ⟨member, bound⟩
  · have split : {d | d = 0 ∨ RelativeChange (seen ++ [v]) d} =
        {d | d = 0 ∨ RelativeChange seen d} ∪
          {d | ∃ a ∈ seen ++ [v], 0 < a ∧ d = (v - a) / a} := by
      ext d
      simp only [Set.mem_ofPred_eq, Set.mem_union, relativeChange_concat, or_assoc]
    rw [split]
    simp only [drawdownStep]
    by_cases positive : 0 < raisePeak state.1 v
    · have deepest : IsLeast {d | ∃ a ∈ seen ++ [v], 0 < a ∧ d = (v - a) / a}
          ((v - raisePeak state.1 v) / raisePeak state.1 v) := by
        refine ⟨⟨_, member, positive, rfl⟩, ?_⟩
        rintro d ⟨a, inside, above, change⟩
        rw [change]
        exact fall_antitone value above (bound inside)
      have both := known.least.union deepest
      rw [if_pos positive]
      rw [min_comm, min_def_lt] at both
      exact both
    · -- no value so far is positive, so the new one adds no pair
      have none : {d | ∃ a ∈ seen ++ [v], 0 < a ∧ d = (v - a) / a} = ∅ := by
        ext d
        simp only [Set.mem_ofPred_eq, Set.mem_empty_iff_false, iff_false]
        rintro ⟨a, inside, above, _⟩
        exact positive (above.trans_le (bound inside))
      rw [if_neg positive, none, Set.union_empty]
      exact known.least

theorem drawdown_known {equity : List ℝ} (nonneg : ∀ v ∈ equity, 0 ≤ v) :
    DrawdownKnown equity (equity.foldl drawdownStep (none, 0)) := by
  induction equity using List.reverseRecOn with
  | nil =>
    refine ⟨fun _ => rfl, by simp, ?_⟩
    simp [RelativeChange]
  | append_singleton seen v ih =>
    rw [List.foldl_append]
    have before := ih fun x member => nonneg x (List.mem_append_left _ member)
    exact drawdownStep_known before (nonneg v (by simp))

theorem drawdownStep_le (state : Option ℝ × ℝ) (v : ℝ) : (drawdownStep state v).2 ≤ state.2 := by
  simp only [drawdownStep]
  split
  · split
    next deeper => exact deeper.le
    next => exact le_rfl
  · exact le_rfl

theorem drawdown_foldl_le (state : Option ℝ × ℝ) (more : List ℝ) :
    (more.foldl drawdownStep state).2 ≤ state.2 := by
  induction more generalizing state with
  | nil => exact le_rfl
  | cons v more ih => exact (ih _).trans (drawdownStep_le state v)

theorem maxDrawdown_append_le (equity more : List ℝ) :
    maxDrawdown (equity ++ more) ≤ maxDrawdown equity := by
  simp only [maxDrawdown, List.foldl_append]
  exact drawdown_foldl_le _ more

section NonNegative

variable {equity : List ℝ} (nonneg : ∀ v ∈ equity, 0 ≤ v)
include nonneg

theorem maxDrawdown_bounds : -1 ≤ maxDrawdown equity ∧ maxDrawdown equity ≤ 0 := by
  obtain ⟨member, bound⟩ := (drawdown_known nonneg).least
  refine ⟨?_, bound (Or.inl rfl)⟩
  rcases member with zero | ⟨i, j, a, b, -, -, second, positive, change⟩
  · rw [maxDrawdown, zero]
    norm_num
  · rw [maxDrawdown, change, le_div_iff₀ positive]
    linarith [nonneg b (List.mem_of_getElem? second)]

/-- There is no drawdown exactly on a curve that never falls below an earlier value. -/
theorem maxDrawdown_eq_zero_iff : maxDrawdown equity = 0 ↔ equity.Pairwise (· ≤ ·) := by
  obtain ⟨member, bound⟩ := (drawdown_known nonneg).least
  rw [List.pairwise_iff_getElem]
  constructor
  · intro flat i j first second order
    by_contra falls
    rw [not_le] at falls
    -- a fall would be a negative change
    have positive : 0 < equity[i] := (nonneg _ (List.getElem_mem second)).trans_lt falls
    have change := bound (Or.inr ⟨i, j, equity[i], equity[j], order.le,
      List.getElem?_eq_getElem first, List.getElem?_eq_getElem second, positive, rfl⟩)
    rw [maxDrawdown] at flat
    rw [flat] at change
    exact absurd change (not_le.mpr (div_neg_of_neg_of_pos (sub_neg.mpr falls) positive))
  · intro rising
    rcases member with zero | ⟨i, j, a, b, order, first, second, positive, change⟩
    · exact zero
    · obtain ⟨inside, here⟩ := List.getElem?_eq_some_iff.mp first
      obtain ⟨inside', here'⟩ := List.getElem?_eq_some_iff.mp second
      have above : a ≤ b := by
        rcases order.eq_or_lt with same | later
        · subst same
          exact (here.symm.trans here').le
        · rw [← here, ← here']
          exact rising i j inside inside' later
      apply le_antisymm (maxDrawdown_bounds nonneg).2
      rw [maxDrawdown, change]
      exact div_nonneg (sub_nonneg.mpr above) positive.le

/-- The one pass finds the deepest fall over all pairs. -/
theorem maxDrawdown_pairwise :
    IsLeast {d | d = 0 ∨ RelativeChange equity d} (maxDrawdown equity) ∧
      (-1 ≤ maxDrawdown equity ∧ maxDrawdown equity ≤ 0) ∧
      (maxDrawdown equity = 0 ↔ equity.Pairwise (· ≤ ·)) ∧
      (∀ k, 0 < k → maxDrawdown (equity.map fun v => k * v) = maxDrawdown equity) ∧
      ∀ more, maxDrawdown (equity ++ more) ≤ maxDrawdown equity :=
  ⟨(drawdown_known nonneg).least, maxDrawdown_bounds nonneg, maxDrawdown_eq_zero_iff nonneg,
    fun _ positive => maxDrawdown_scale positive equity, maxDrawdown_append_le equity⟩

end NonNegative

theorem maxDrawdown_pairwise_recovered :
    IsLeast {d | d = 0 ∨ RelativeChange [0, 2, 1, 4] d} (maxDrawdown [0, 2, 1, 4]) :=
  (maxDrawdown_pairwise (by simp)).1

end TickLiq
