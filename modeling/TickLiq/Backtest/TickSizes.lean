import TickLiq.Backtest.PriceToTick
import TickLiq.Math.Libm

/-!
# Ticks of floats

The logarithm of a float is some seven million ticks at most, where neither the cast nor the
product with the spacing comes near the ends of `i32`. Only zero and infinity are beyond: a
quotient of zero casts to `i32::MIN`, which is a multiple of no spacing but a power of two, an
infinite one to `i32::MAX`, which is rounded down to the highest tick.
-/
namespace TickLiq

open Machine (Binary64 InRange divEuclid_positive checked_inRange checked_true_iff)

/-- What a tick within a hundred million of zero is rounded down to. -/
def GridTick (spacing tick : ℤ) : Prop :=
  ∃ n, -100000000 ≤ n ∧ n ≤ 100000000 ∧ tick = n / spacing * spacing

/-- The last multiple of the spacing in `i32`. -/
def highestTick (spacing : ℤ) : ℤ := (2 ^ 31 - 1) / spacing * spacing

/-- On the grid, or the tick of a zero or of an infinite quotient. -/
def RangeTick (spacing tick : ℤ) : Prop :=
  GridTick spacing tick ∨ (tick = -2 ^ 31 ∧ spacing ∣ 2 ^ 31) ∨ tick = highestTick spacing

/-- One of the two is an end of the ticks, and the other lies too far from it. -/
def FarApart (spacing a b : ℤ) : Prop :=
  (a = -2 ^ 31 ∧ 0 < b) ∨ (b = -2 ^ 31 ∧ 0 ≤ a) ∨ (a = highestTick spacing ∧ b < 0) ∨
    (b = highestTick spacing ∧ a < 0 ∧ ¬(a = -spacing ∧ spacing ∣ 2 ^ 31))

section Grid

variable {s : ℤ} (spacing : 0 < s) (fits : InRange 32 s)
include spacing

theorem GridTick.cases {t : ℤ} (grid : GridTick s t) :
    (100000000 < s ∧ (t = 0 ∨ t = -s)) ∨ (s ≤ 100000000 ∧ -200000000 ≤ t ∧ t ≤ 100000000) := by
  obtain ⟨n, least, most, rounded⟩ := grid
  rw [rounded]
  exact aligned_bounds spacing least most

omit spacing in
theorem RangeTick.dvd {t : ℤ} (range : RangeTick s t) : s ∣ t := by
  rcases range with ⟨n, _, _, rounded⟩ | ⟨lowest, divides⟩ | highest
  · rw [rounded]
    exact Int.dvd_mul_left _ _
  · rw [lowest]
    exact Int.dvd_neg.mpr divides
  · rw [highest]
    exact Int.dvd_mul_left _ _

include fits

theorem highestTick_bounds : s ≤ highestTick s ∧ highestTick s ≤ 2 ^ 31 - 1 ∧
    2 ^ 31 - 1 < highestTick s + s := by
  have below := Int.ediv_mul_le (2 ^ 31 - 1) spacing.ne'
  have above := Int.lt_ediv_add_one_mul_self (2 ^ 31 - 1) spacing
  have one : 1 ≤ (2 ^ 31 - 1) / s := by
    apply (Int.le_ediv_iff_mul_le spacing).mpr
    obtain ⟨_, upper⟩ := fits
    omega
  have least := Int.mul_le_mul_of_nonneg_right one spacing.le
  rw [Int.add_mul] at above
  unfold highestTick
  omega

/-- `i32::MIN` is on the grid when the highest tick is one spacing below its opposite. -/
theorem dvd_iff_highestTick : s ∣ 2 ^ 31 ↔ highestTick s = 2 ^ 31 - s := by
  obtain ⟨_, below, above⟩ := highestTick_bounds spacing fits
  have multiple : s ∣ highestTick s := Int.dvd_mul_left _ _
  constructor
  · intro divides
    -- the distance is a positive multiple of at most one spacing
    have distance : s ∣ 2 ^ 31 - highestTick s := Int.dvd_sub divides multiple
    have least := Int.le_of_dvd (by omega) distance
    omega
  · intro here
    have sum : (2 : ℤ) ^ 31 = highestTick s + s := by omega
    rw [sum]
    exact Int.dvd_add multiple (Int.dvd_refl s)

theorem RangeTick.inRange {t : ℤ} (range : RangeTick s t) : InRange 32 t := by
  have highest := highestTick_bounds spacing fits
  have upper := fits.2
  rcases range with grid | ⟨lowest, _⟩ | top
  · have cases := grid.cases spacing
    constructor <;> omega
  · rw [lowest]
    decide
  · rw [top]
    constructor <;> omega

/-- Ticks that `i32` cannot subtract are far apart. -/
theorem RangeTick.sub_inRange_iff {a b : ℤ} (first : RangeTick s a) (second : RangeTick s b) :
    InRange 32 (a - b) ↔ ¬FarApart s a b := by
  have highest := highestTick_bounds spacing fits
  have divides := dvd_iff_highestTick spacing fits
  -- on the grid there is nothing between zero and a spacing below it
  have negative : ∀ t : ℤ, s ∣ t → t < 0 → t ≤ -s := by
    intro t multiple below
    have least := Int.le_of_dvd (by omega) (Int.dvd_neg.mpr multiple)
    omega
  have negativeA := negative a first.dvd
  have negativeB := negative b second.dvd
  have nextA := negative (a + s) (Int.dvd_add first.dvd (Int.dvd_refl s))
  obtain ⟨_, upper⟩ := fits
  unfold FarApart InRange
  rw [divides]
  -- both are on the grid, the least tick or the highest one of the grid
  rcases first with grid | ⟨lowest, divides'⟩ | top <;>
    rcases second with grid' | ⟨lowest', divides''⟩ | top'
  · have cases := grid.cases spacing
    have cases' := grid'.cases spacing
    omega
  · have cases := grid.cases spacing
    omega
  · have cases := grid.cases spacing
    omega
  · have cases' := grid'.cases spacing
    omega
  · omega
  · rw [divides] at divides'
    omega
  · have cases' := grid'.cases spacing
    omega
  · omega
  · omega

end Grid

/-! ### In `f64` -/

section Floats

variable [Libm] [Libm.Lawful] {s : ℤ} (spacing : 0 < s) (fits : InRange 32 s) {x : Binary64}
include spacing

omit [Libm.Lawful] in
theorem priceToTick_product (checks : Bool) : priceToTick checks x s =
    Machine.checked checks 32 (Rounded.rawTick x / s * s) := by
  unfold priceToTick
  rw [divEuclid_positive (F64.rawTick_inRange x) spacing]
  rfl

omit spacing in
/-- The product fits, unless the quotient is zero and `i32::MIN` is not on the grid. -/
theorem aligned_rangeTick (divides : x = 0 → s ∣ 2 ^ 31) :
    RangeTick s (Rounded.rawTick x / s * s) := by
  rcases Rounded.rawTick_cases x with ⟨zero, lowest⟩ | ⟨_, highest⟩ | ⟨_, _, least, most⟩
  · rw [lowest, Int.ediv_mul_cancel (Int.dvd_neg.mpr (divides zero))]
    exact Or.inr (Or.inl ⟨rfl, divides zero⟩)
  · rw [highest]
    exact Or.inr (Or.inr rfl)
  · exact Or.inl ⟨_, least, most, rfl⟩

include fits

theorem priceToTick_returns_iff :
    (∃ t, priceToTick true x s = .ok t) ↔ (x = 0 → s ∣ 2 ^ 31) := by
  rw [priceToTick_product spacing]
  constructor
  · rintro ⟨t, returned⟩ zero
    obtain ⟨inside, _⟩ := checked_true_iff.mp returned
    rcases Rounded.rawTick_cases x with ⟨_, lowest⟩ | ⟨infinite, _⟩ | ⟨nonzero, _⟩
    · rw [lowest] at inside
      have below := Int.ediv_mul_le (-2 ^ 31) spacing.ne'
      have same : -2 ^ 31 / s * s = -2 ^ 31 := le_antisymm below inside.1
      exact Int.dvd_neg.mp (Dvd.intro_left _ same)
    · obtain ⟨_, _, finite⟩ := Binary64.reads_zero
      rw [zero, finite] at infinite
      cases infinite
    · exact absurd zero nonzero
  · intro divides
    exact ⟨_, checked_inRange true ((aligned_rangeTick divides).inRange spacing fits)⟩

theorem priceToTick_rangeTick (divides : x = 0 → s ∣ 2 ^ 31) {checks : Bool} {t : ℤ}
    (returned : priceToTick checks x s = .ok t) : RangeTick s t := by
  have range := aligned_rangeTick divides
  rw [priceToTick_product spacing, checked_inRange checks (range.inRange spacing fits)] at returned
  exact Except.ok.inj returned ▸ range

end Floats

end TickLiq
