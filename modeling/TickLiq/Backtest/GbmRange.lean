import TickLiq.Backtest.Gbm
import TickLiq.Math.IlShape

/-!
# The range of the GBM engine

A rebalance takes half of the width that the last one left and clamps the lower bound
at the price floor. The clamp narrows the range but cannot close it, since the floored
price is never below the clamp.
-/
namespace TickLiq

open Machine (loop_invariant)

/-- The guard of `compute_il` on the roots of the bounds. -/
def DegenerateRange (priceLower priceUpper : ℝ) : Prop :=
  √priceLower ≤ 0 ∨ √priceUpper ≤ √priceLower

theorem not_degenerateRange {priceLower priceUpper : ℝ} (lower : 0 < priceLower)
    (ordered : priceLower < priceUpper) : ¬DegenerateRange priceLower priceUpper := by
  rw [DegenerateRange, not_or]
  exact ⟨not_le.mpr (Real.sqrt_pos.mpr lower), not_le.mpr (Real.sqrt_lt_sqrt lower.le ordered)⟩

namespace Gbm

noncomputable def width (gbm : Gbm ℝ) : ℝ := gbm.priceUpper - gbm.priceLower

/-- What every day leaves of the range. -/
structure ValidRange (most : ℝ) (gbm : Gbm ℝ) : Prop where
  lower : 0 < gbm.priceLower
  ordered : gbm.priceLower < gbm.priceUpper
  width : gbm.width ≤ most

variable {params : BacktestParams ℝ} {checks : Bool} {most price : ℝ} {gbm next : Gbm ℝ}

/-- The width is kept, or the clamp has taken some of it away. -/
theorem recenter_width (gbm : Gbm ℝ) (params : BacktestParams ℝ) (price : ℝ) :
    (gbm.recenter params price).width = gbm.width ∨
      price - gbm.width / (2 : ℕ) < 1e-6 ∧ (gbm.recenter params price).priceLower = 1e-6 ∧
      (gbm.recenter params price).width < gbm.width := by
  have halves : gbm.width / (2 : ℕ) + gbm.width / (2 : ℕ) = gbm.width := by
    rw [Nat.cast_ofNat, add_halves]
  rcases lt_or_ge (price - gbm.width / (2 : ℕ)) 1e-6 with clamped | free
  · have floor : (gbm.recenter params price).priceLower = 1e-6 := max_eq_right clamped.le
    -- the lower half is cut short, the upper one is whole
    refine Or.inr ⟨clamped, floor, ?_⟩
    rw [Gbm.width, floor]
    change price + gbm.width / (2 : ℕ) - 1e-6 < gbm.width
    linarith
  · have kept : (gbm.recenter params price).priceLower = price - gbm.width / (2 : ℕ) :=
      max_eq_left free
    left
    rw [Gbm.width, kept]
    change price + gbm.width / (2 : ℕ) - (price - gbm.width / (2 : ℕ)) = gbm.width
    linarith

section Recenter

variable (valid : ValidRange most gbm) (floored : 1e-6 ≤ price)
include valid floored

theorem recenter_around : (gbm.recenter params price).priceLower ≤ price ∧
    price < (gbm.recenter params price).priceUpper := by
  have half : 0 < (gbm.priceUpper - gbm.priceLower) / (2 : ℕ) :=
    div_pos (sub_pos.mpr valid.ordered) (Nat.cast_pos.mpr two_pos)
  simp only [recenter]
  constructor
  · apply max_le _ floored
    linarith
  · linarith

theorem recenter_valid : ValidRange most (gbm.recenter params price) := by
  obtain ⟨below, above⟩ := recenter_around valid floored
  refine ⟨?_, below.trans_lt above, ?_⟩
  · exact lt_of_lt_of_le (by norm_num) (le_max_right _ _)
  · rcases recenter_width gbm params price with kept | ⟨_, _, narrower⟩
    · rw [kept]
      exact valid.width
    · exact narrower.le.trans valid.width

end Recenter

/-- A day moves the range only by a rebalance, which it counts. -/
theorem step_range {day : ℕ} {drawn : ℝ} (stepped : gbm.step params checks day drawn = .ok next) :
    (next.totalRebalances = gbm.totalRebalances ∧ next.entryPrice = gbm.entryPrice ∧
      next.priceLower = gbm.priceLower ∧ next.priceUpper = gbm.priceUpper) ∨
    (next.totalRebalances = gbm.totalRebalances + 1 ∧ next.entryPrice = max drawn 1e-6 ∧
      next.priceLower = (gbm.recenter params (max drawn 1e-6)).priceLower ∧
      next.priceUpper = (gbm.recenter params (max drawn 1e-6)).priceUpper) := by
  obtain ⟨rested, decided, made⟩ := step_ok stepped
  rcases rebalanceDay_cases decided with ⟨held, _⟩ | ⟨moved, _⟩
  · rw [made, held]
    exact Or.inl ⟨rfl, rfl, rfl, rfl⟩
  · rw [made, moved]
    exact Or.inr ⟨rfl, rfl, rfl, rfl⟩

theorem ValidRange.of_eq {other : Gbm ℝ} (valid : ValidRange most other)
    (lower : gbm.priceLower = other.priceLower) (upper : gbm.priceUpper = other.priceUpper) :
    ValidRange most gbm := by
  have width : gbm.width = other.width := by rw [Gbm.width, Gbm.width, lower, upper]
  exact ⟨lower ▸ valid.lower, lower ▸ upper ▸ valid.ordered, width ▸ valid.width⟩

theorem step_valid {day : ℕ} {drawn : ℝ} (valid : ValidRange most gbm)
    (stepped : gbm.step params checks day drawn = .ok next) : ValidRange most next := by
  rcases step_range stepped with ⟨_, _, lower, upper⟩ | ⟨_, _, lower, upper⟩
  · exact valid.of_eq lower upper
  · exact (recenter_valid valid (le_max_right drawn 1e-6)).of_eq lower upper

section Run

variable (positive : 0 < params.priceLower) (ordered : params.priceLower < params.priceUpper)
include positive ordered

theorem loop_valid {seen : List ℝ} (through : loop params checks 1 (start params) seen = .ok gbm) :
    ValidRange (params.priceUpper - params.priceLower) gbm :=
  loop_invariant ⟨positive, ordered, le_rfl⟩
    (fun _ _ _ _ _ valid stepped => step_valid valid stepped) through

/-- After any days, one day more: the loss is taken over a range that is not degenerate, and
the range it leaves is one again. -/
theorem range_survives {seen : List ℝ} {drawn : ℝ}
    (through : loop params checks 1 (start params) seen = .ok gbm)
    (stepped : gbm.step params checks (1 + seen.length) drawn = .ok next) :
    ¬DegenerateRange gbm.priceLower gbm.priceUpper ∧
      (0 < gbm.entryPrice → computeIl gbm.entryPrice (max drawn 1e-6) gbm.priceLower gbm.priceUpper =
        vLp (max drawn 1e-6) gbm.priceLower gbm.priceUpper /
          vHodl gbm.entryPrice (max drawn 1e-6) gbm.priceLower gbm.priceUpper - 1) ∧
      (0 < next.priceLower ∧ next.priceLower < next.priceUpper) ∧
      next.width ≤ params.priceUpper - params.priceLower ∧
      (next.totalRebalances = gbm.totalRebalances ∧
          next.priceLower = gbm.priceLower ∧ next.priceUpper = gbm.priceUpper ∨
        next.totalRebalances = gbm.totalRebalances + 1 ∧
          next.priceLower ≤ next.entryPrice ∧ next.entryPrice = max drawn 1e-6 ∧
          next.entryPrice < next.priceUpper ∧
          (max drawn 1e-6 - gbm.width / 2 < 1e-6 ∧ next.priceLower = 1e-6 ∨
            next.width = gbm.width)) := by
  have before := loop_valid positive ordered through
  have after := step_valid before stepped
  have floored : (1e-6 : ℝ) ≤ max drawn 1e-6 := le_max_right drawn 1e-6
  have priced : 0 < max drawn 1e-6 := lt_of_lt_of_le (by norm_num) floored
  refine ⟨not_degenerateRange before.lower before.ordered,
    fun entry => computeIl_eq before.lower before.ordered entry priced,
    ⟨after.lower, after.ordered⟩, after.width, ?_⟩
  -- a day either keeps the range or puts it around its own price
  rcases step_range stepped with ⟨count, _, lower, upper⟩ | ⟨count, entry, lower, upper⟩
  · exact Or.inl ⟨count, lower, upper⟩
  · right
    obtain ⟨below, above⟩ := recenter_around before floored
    have width : next.width = (gbm.recenter params (max drawn 1e-6)).width := by
      rw [Gbm.width, Gbm.width, lower, upper]
    refine ⟨count, ?_, entry, ?_, ?_⟩
    · rw [entry, lower]
      exact below
    · rw [entry, upper]
      exact above
    · rw [lower, width]
      rcases recenter_width gbm params (max drawn 1e-6) with kept | ⟨clamped, floor, _⟩
      · exact Or.inr kept
      · exact Or.inl ⟨clamped, floor⟩

end Run

theorem range_survives_sample : ∃ next, step (start sampleParams) sampleParams false 1 2 = .ok next ∧
    0 < next.priceLower ∧ next.priceLower < next.priceUpper := by
  have lower : 0 < sampleParams.priceLower := by norm_num [sampleParams]
  have ordered : sampleParams.priceLower < sampleParams.priceUpper := by norm_num [sampleParams]
  obtain ⟨next, stepped⟩ := step_unchecked (show 0 < sampleParams.tickSpacing from one_pos)
    (start sampleParams) 1 2
  obtain ⟨_, _, valid, _⟩ := range_survives lower ordered
    (rfl : loop sampleParams false 1 (start sampleParams) [] = .ok (start sampleParams)) stepped
  exact ⟨next, stepped, valid⟩

end Gbm

end TickLiq
