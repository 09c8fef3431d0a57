import Mathlib.Algebra.Ring.Int.Defs
import Mathlib.Tactic.NormNum
import TickLiq.Machine.Checked

/-!
# Rebalance plans

A plan takes the width of the old range to the current tick, with both bounds on the grid of
the spacing. A range of one spacing has no room to be centered on the grid, and there the
repair of the upper bound makes it two spacings wide.
-/
namespace TickLiq

open Machine (Panic InRange subChecked saturating saturating_inRange checked_inRange ok_bind)

structure RebalancePlan where
  positionMint : String
  closeIxCount : ℕ
  collectIxCount : ℕ
  openIxCount : ℕ
  estimatedCu : ℕ
  newTickLower : ℤ
  newTickUpper : ℤ
deriving DecidableEq

/-- Floor-align to the spacing; `%` is Euclidean, so that negative ticks align down. -/
def alignTick (checks : Bool) (spacing t : ℤ) : Except Panic ℤ := subChecked checks 32 t (t % spacing)

def buildRebalancePlan (checks : Bool) (positionMint : String)
    (currentTick tickLower tickUpper tickSpacing : ℤ) : Except Panic RebalancePlan := do
  let spacing := max tickSpacing 1
  let width := max (saturating 32 (tickUpper - tickLower)) spacing
  let half := width.tdiv 2
  let newTickLower ← alignTick checks spacing (saturating 32 (currentTick - half))
  let newTickUpper := saturating 32 (newTickLower + width)
  -- the current tick has to be inside
  let newTickUpper ←
    if newTickUpper ≤ currentTick then do
      let aligned ← alignTick checks spacing currentTick
      pure (saturating 32 (aligned + spacing))
    else pure newTickUpper
  let newTickLower ←
    if currentTick < newTickLower then alignTick checks spacing currentTick
    else pure newTickLower
  return {
    positionMint
    closeIxCount := 1
    collectIxCount := 1
    openIxCount := 1
    estimatedCu := 200000
    newTickLower
    newTickUpper }

/-! ### Ranges on the grid -/

section Grid

variable {s : ℤ} (positive : 0 < s) (t : ℤ)
include positive

theorem align_bounds : t - t % s ≤ t ∧ t < t - t % s + s := by
  have nonneg := Int.emod_nonneg t positive.ne'
  have below := Int.emod_lt_of_pos t positive
  omega

omit positive in
theorem align_dvd (s t : ℤ) : s ∣ t - t % s := Int.dvd_self_sub_emod

/-- A multiple of the spacing that is at most `t`, with the next one above it, is `t` aligned. -/
theorem align_unique {a : ℤ} (aligned : s ∣ a) (below : a ≤ t) (next : t < a + s) :
    t - t % s = a := by
  have bounds := align_bounds positive t
  have gap := Int.dvd_sub (align_dvd s t) aligned
  have none := Int.eq_zero_of_abs_lt_dvd gap (abs_lt.mpr ⟨by omega, by omega⟩)
  omega

end Grid

/-- Half the old width under the current tick, on the grid. -/
def movedLower (currentTick tickLower tickUpper tickSpacing : ℤ) : ℤ :=
  let start := currentTick - (tickUpper - tickLower).tdiv 2
  start - start % tickSpacing

theorem movedLower_dvd (currentTick tickLower tickUpper tickSpacing : ℤ) :
    tickSpacing ∣ movedLower currentTick tickLower tickUpper tickSpacing := align_dvd _ _

/-- On the grid, around the current tick, and centered on it to within a spacing. -/
structure ValidRange (plan : RebalancePlan) (currentTick tickSpacing : ℤ) : Prop where
  lowerAligned : tickSpacing ∣ plan.newTickLower
  upperAligned : tickSpacing ∣ plan.newTickUpper
  reached : plan.newTickLower ≤ currentTick
  inside : currentTick < plan.newTickUpper
  centered : |plan.newTickLower + plan.newTickUpper - 2 * currentTick| ≤ 2 * tickSpacing

section Plan

variable {currentTick tickLower tickUpper tickSpacing : ℤ}

/-- An old range on the grid, and all its ticks in the pool. -/
structure OldRange (currentTick tickLower tickUpper tickSpacing : ℤ) : Prop where
  positive : 1 ≤ tickSpacing
  u16 : tickSpacing ≤ 65535
  lowerAligned : tickSpacing ∣ tickLower
  upperAligned : tickSpacing ∣ tickUpper
  ordered : tickLower < tickUpper
  lower : -443636 ≤ tickLower
  upper : tickUpper ≤ 443636
  current : -443636 ≤ currentTick ∧ currentTick ≤ 443636

variable (range : OldRange currentTick tickLower tickUpper tickSpacing)
include range

theorem OldRange.width_cases : tickUpper - tickLower = tickSpacing ∨
    2 * tickSpacing ≤ tickUpper - tickLower := by
  obtain ⟨k, multiple⟩ := Int.dvd_sub range.upperAligned range.lowerAligned
  have ordered := range.ordered
  have positive := range.positive
  -- the width is a positive multiple of the spacing
  have some : 0 < k := by
    by_contra none
    have product : tickSpacing * k ≤ 0 :=
      mul_nonpos_of_nonneg_of_nonpos (by omega) (not_lt.mp none)
    omega
  have few : k = 1 ∨ 2 ≤ k := by omega
  rcases few with one | more
  · left
    rw [multiple, one, mul_one]
  · right
    rw [multiple, mul_comm 2]
    exact mul_le_mul_of_nonneg_left more (by omega)

/-- Every exact result on the way fits `i32`, so that nothing saturates. -/
structure PlanFits (currentTick tickLower tickUpper tickSpacing : ℤ) : Prop where
  width : InRange 32 (tickUpper - tickLower)
  start : InRange 32 (currentTick - (tickUpper - tickLower).tdiv 2)
  lower : InRange 32 (movedLower currentTick tickLower tickUpper tickSpacing)
  upper : InRange 32 (movedLower currentTick tickLower tickUpper tickSpacing +
    (tickUpper - tickLower))
  aligned : InRange 32 (currentTick - currentTick % tickSpacing)
  repaired : InRange 32 (currentTick - currentTick % tickSpacing + tickSpacing)

theorem OldRange.movedLower_bounds :
    movedLower currentTick tickLower tickUpper tickSpacing ≤
        currentTick - (tickUpper - tickLower) / 2 ∧
      currentTick - (tickUpper - tickLower) / 2 <
        movedLower currentTick tickLower tickUpper tickSpacing + tickSpacing := by
  have positive : 0 < tickSpacing := range.positive
  have ordered := range.ordered
  have half : (tickUpper - tickLower).tdiv 2 = (tickUpper - tickLower) / 2 :=
    Int.tdiv_eq_ediv_of_nonneg (by omega)
  rw [movedLower, ← half]
  exact align_bounds positive _

theorem OldRange.fits : PlanFits currentTick tickLower tickUpper tickSpacing := by
  have down := range.movedLower_bounds
  have grid := align_bounds range.positive currentTick
  obtain ⟨positive, u16, _, _, ordered, lower, upper, current⟩ := range
  have half : (tickUpper - tickLower).tdiv 2 = (tickUpper - tickLower) / 2 :=
    Int.tdiv_eq_ediv_of_nonneg (by omega)
  -- ticks below 443636 and a spacing below 65536 add up to far less than 2^31
  constructor <;> simp only [InRange, half] <;> omega

/-- The plan in exact integers: the old width from the moved lower bound, unless that ends at or
under the current tick. -/
theorem OldRange.plan_eq (checks : Bool) (positionMint : String) :
    buildRebalancePlan checks positionMint currentTick tickLower tickUpper tickSpacing =
      .ok { positionMint, closeIxCount := 1, collectIxCount := 1, openIxCount := 1,
            estimatedCu := 200000
            newTickLower := movedLower currentTick tickLower tickUpper tickSpacing
            newTickUpper :=
              if movedLower currentTick tickLower tickUpper tickSpacing +
                  (tickUpper - tickLower) ≤ currentTick then
                currentTick - currentTick % tickSpacing + tickSpacing
              else movedLower currentTick tickLower tickUpper tickSpacing +
                (tickUpper - tickLower) } := by
  have fits := range.fits
  have down := range.movedLower_bounds
  have wide := range.width_cases
  have positive := range.positive
  have ordered := range.ordered
  have spacing : max tickSpacing 1 = tickSpacing := max_eq_left positive
  have width : max (tickUpper - tickLower) tickSpacing = tickUpper - tickLower :=
    max_eq_left (by omega)
  -- aligned down from at most the current tick, the lower bound needs no repair
  have reached : ¬currentTick < movedLower currentTick tickLower tickUpper tickSpacing := by omega
  have start : alignTick checks tickSpacing (currentTick - (tickUpper - tickLower).tdiv 2) =
      .ok (movedLower currentTick tickLower tickUpper tickSpacing) :=
    checked_inRange checks fits.lower
  have aligned : alignTick checks tickSpacing currentTick =
      .ok (currentTick - currentTick % tickSpacing) := checked_inRange checks fits.aligned
  simp only [buildRebalancePlan, spacing, saturating_inRange fits.width, width,
    saturating_inRange fits.start, start, ok_bind, saturating_inRange fits.upper, aligned,
    saturating_inRange fits.repaired, if_neg reached]
  split <;> rfl

/-- The moved range ends at or under the current tick only if it is one spacing wide and the
current tick is in the lower half of its spacing. -/
theorem OldRange.short_iff :
    movedLower currentTick tickLower tickUpper tickSpacing + (tickUpper - tickLower) ≤
        currentTick ↔
      tickUpper - tickLower = tickSpacing ∧ currentTick % tickSpacing < tickSpacing / 2 := by
  have down := range.movedLower_bounds
  have grid := align_bounds range.positive currentTick
  have wide := range.width_cases
  have positive := range.positive
  constructor
  · intro short
    have narrow : tickUpper - tickLower = tickSpacing := by omega
    refine ⟨narrow, ?_⟩
    rw [narrow] at down short
    -- the moved lower bound is then one spacing under the current tick's own
    have here := align_unique range.positive currentTick
      (Int.dvd_add (movedLower_dvd currentTick tickLower tickUpper tickSpacing)
        (dvd_refl tickSpacing)) short (by omega)
    omega
  · rintro ⟨narrow, low⟩
    rw [narrow] at down ⊢
    have gap := Int.dvd_sub (align_dvd tickSpacing currentTick)
      (movedLower_dvd currentTick tickLower tickUpper tickSpacing)
    -- the two multiples of the spacing would be less than one spacing apart
    by_contra past
    have none := Int.eq_zero_of_abs_lt_dvd gap (abs_lt.mpr ⟨by omega, by omega⟩)
    omega

/-- The repaired range, two spacings wide. -/
theorem OldRange.repaired_valid (plan : RebalancePlan)
    (lower : plan.newTickLower = movedLower currentTick tickLower tickUpper tickSpacing)
    (upper : plan.newTickUpper = currentTick - currentTick % tickSpacing + tickSpacing)
    (short : movedLower currentTick tickLower tickUpper tickSpacing + (tickUpper - tickLower) ≤
      currentTick) : ValidRange plan currentTick tickSpacing := by
  have down := range.movedLower_bounds
  have grid := align_bounds range.positive currentTick
  have positive := range.positive
  obtain ⟨narrow, low⟩ := range.short_iff.mp short
  constructor
  · rw [lower]
    exact movedLower_dvd currentTick tickLower tickUpper tickSpacing
  · rw [upper]
    exact Int.dvd_add (align_dvd tickSpacing currentTick) (dvd_refl tickSpacing)
  · omega
  · omega
  · exact abs_le.mpr ⟨by omega, by omega⟩

/-- The moved range, as wide as the old one. -/
theorem OldRange.moved_valid (plan : RebalancePlan)
    (lower : plan.newTickLower = movedLower currentTick tickLower tickUpper tickSpacing)
    (upper : plan.newTickUpper = movedLower currentTick tickLower tickUpper tickSpacing +
      (tickUpper - tickLower))
    (past : currentTick < movedLower currentTick tickLower tickUpper tickSpacing +
      (tickUpper - tickLower)) : ValidRange plan currentTick tickSpacing := by
  have down := range.movedLower_bounds
  have wide := range.width_cases
  have positive := range.positive
  have lowerAligned := movedLower_dvd currentTick tickLower tickUpper tickSpacing
  constructor
  · rw [lower]
    exact lowerAligned
  · rw [upper]
    exact Int.dvd_add lowerAligned (Int.dvd_sub range.upperAligned range.lowerAligned)
  · omega
  · omega
  · exact abs_le.mpr ⟨by omega, by omega⟩

/-- Nothing saturates or overflows and the range is valid; the old width is kept except for a range
of one spacing with the current tick in the lower half of its own. -/
theorem rebalancePlan_width_iff (checks : Bool) (positionMint : String) :
    PlanFits currentTick tickLower tickUpper tickSpacing ∧
    ∃ plan, buildRebalancePlan checks positionMint currentTick tickLower tickUpper tickSpacing =
        .ok plan ∧
      ValidRange plan currentTick tickSpacing ∧
      (ValidRange plan currentTick tickSpacing ∧
          plan.newTickUpper - plan.newTickLower = tickUpper - tickLower ↔
        ¬(tickUpper - tickLower = tickSpacing ∧
          currentTick % tickSpacing < tickSpacing / 2)) := by
  refine ⟨range.fits, _, range.plan_eq checks positionMint, ?_⟩
  rw [← range.short_iff]
  by_cases short : movedLower currentTick tickLower tickUpper tickSpacing +
      (tickUpper - tickLower) ≤ currentTick
  · have grid := align_bounds range.positive currentTick
    rw [if_pos short]
    refine ⟨range.repaired_valid _ rfl rfl short, ?_, fun past => absurd short past⟩
    -- kept, the width would leave the current tick out
    rintro ⟨_, kept⟩
    dsimp only at kept
    omega
  · rw [if_neg short]
    have past := not_le.mp short
    refine ⟨range.moved_valid _ rfl rfl past, fun _ => short, fun _ => ?_⟩
    exact ⟨range.moved_valid _ rfl rfl past, add_sub_cancel_left ..⟩

end Plan

/-- A range of two spacings is moved as it is. -/
theorem rebalancePlan_width_iff_two : ∃ plan,
    buildRebalancePlan true "MINT" 5 0 128 64 = .ok plan ∧ ValidRange plan 5 64 ∧
      plan.newTickUpper - plan.newTickLower = 128 - 0 := by
  obtain ⟨_, plan, built, _, exact'⟩ := rebalancePlan_width_iff
    (⟨by decide, by decide, by decide, by decide, by decide, by decide, by decide, by decide⟩ :
      OldRange 5 0 128 64) true "MINT"
  exact ⟨plan, built, exact'.mpr (by decide)⟩

/-- A range of one spacing becomes two spacings wide. -/
theorem rebalancePlan_doubles_width : ∃ plan,
    buildRebalancePlan true "MINT" 5 0 64 64 = .ok plan ∧
      plan.newTickUpper - plan.newTickLower = 128 :=
  ⟨⟨"MINT", 1, 1, 1, 200000, -64, 64⟩, by decide, by decide⟩

end TickLiq
