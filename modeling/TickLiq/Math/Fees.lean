import Mathlib.Tactic.Ring
import TickLiq.Machine.Checked
import TickLiq.Machine.Wrapping

/-!
# Fee accrual

`compute_accrued_fees` multiplies a `u128` growth delta by a `u128` liquidity in
64-bit halves and keeps the low 64 bits of the product shifted right by 64.
-/
namespace TickLiq

open Machine (Panic mulUnsigned mulUnsigned_halves wrappingSub wrappingSub_add wrappingSub_emod
  wrappingSub_split)

def computeAccruedFees (feeGrowthGlobal feeGrowthCheckpoint liquidity : ℕ) : ℕ :=
  let growthDelta := wrappingSub (2 ^ 128) feeGrowthGlobal feeGrowthCheckpoint
  let aHi := growthDelta / 2 ^ 64
  let aLo := growthDelta % 2 ^ 64
  let bHi := liquidity / 2 ^ 64
  let bLo := liquidity % 2 ^ 64
  -- two `wrapping_add`s on `u128`, then `as u64`
  let mid := ((aHi * bLo + aLo * bHi) % 2 ^ 128 + aLo * bLo / 2 ^ 64) % 2 ^ 128
  mid % 2 ^ 64

/-- The same with its multiplications, which a build may check for overflow. -/
def computeAccruedFeesChecked (checks : Bool)
    (feeGrowthGlobal feeGrowthCheckpoint liquidity : ℕ) : Except Panic ℕ := do
  let growthDelta := wrappingSub (2 ^ 128) feeGrowthGlobal feeGrowthCheckpoint
  let aHi := growthDelta / 2 ^ 64
  let aLo := growthDelta % 2 ^ 64
  let bHi := liquidity / 2 ^ 64
  let bLo := liquidity % 2 ^ 64
  let high ← mulUnsigned checks 128 aHi bLo
  let cross ← mulUnsigned checks 128 aLo bHi
  let low ← mulUnsigned checks 128 aLo bLo
  let mid := ((high + cross) % 2 ^ 128 + low / 2 ^ 64) % 2 ^ 128
  return mid % 2 ^ 64

/-- Shifting a product right by one limb, limb by limb. -/
private theorem mul_div_limbs (m aHi aLo bHi bLo : ℕ) (positive : 0 < m) :
    (aHi * m + aLo) * (bHi * m + bLo) / m =
      aHi * bHi * m + (aHi * bLo + aLo * bHi) + aLo * bLo / m := by
  have expanded : (aHi * m + aLo) * (bHi * m + bLo) =
      aLo * bLo + m * (aHi * bHi * m + (aHi * bLo + aLo * bHi)) := by ring
  rw [expanded, Nat.add_mul_div_left _ _ positive, Nat.add_comm]

/-- The halves lose nothing but the bits above 64. -/
theorem computeAccruedFees_eq (feeGrowthGlobal feeGrowthCheckpoint liquidity : ℕ) :
    computeAccruedFees feeGrowthGlobal feeGrowthCheckpoint liquidity =
      wrappingSub (2 ^ 128) feeGrowthGlobal feeGrowthCheckpoint * liquidity / 2 ^ 64 % 2 ^ 64 := by
  unfold computeAccruedFees
  generalize wrappingSub (2 ^ 128) feeGrowthGlobal feeGrowthCheckpoint = delta
  have limbs := mul_div_limbs (2 ^ 64) (delta / 2 ^ 64) (delta % 2 ^ 64) (liquidity / 2 ^ 64)
    (liquidity % 2 ^ 64) (by decide)
  rw [Nat.div_add_mod', Nat.div_add_mod'] at limbs
  rw [limbs]
  -- the top product is a multiple of 2^64, and the wraps at 2^128 do not reach below it
  have top : ∀ x y : ℕ, (x * 2 ^ 64 + y) % 2 ^ 64 = y % 2 ^ 64 := fun x y => by
    rw [Nat.add_comm, Nat.add_mul_mod_self_right]
  have narrow : ∀ x : ℕ, x % 2 ^ 128 % 2 ^ 64 = x % 2 ^ 64 := fun x =>
    Nat.mod_mod_of_dvd x ⟨2 ^ 64, by decide⟩
  dsimp only
  rw [Nat.add_assoc (_ * 2 ^ 64), top, narrow, Nat.add_mod, narrow, ← Nat.add_mod]

/-- All factors are halves of a `u128`. -/
theorem computeAccruedFeesChecked_eq {feeGrowthGlobal feeGrowthCheckpoint liquidity : ℕ}
    (checks : Bool) (bounded : liquidity < 2 ^ 128) :
    computeAccruedFeesChecked checks feeGrowthGlobal feeGrowthCheckpoint liquidity =
      .ok (computeAccruedFees feeGrowthGlobal feeGrowthCheckpoint liquidity) := by
  have delta : wrappingSub (2 ^ 128) feeGrowthGlobal feeGrowthCheckpoint < 2 ^ 128 :=
    Nat.mod_lt _ (by decide)
  have aHi : wrappingSub (2 ^ 128) feeGrowthGlobal feeGrowthCheckpoint / 2 ^ 64 < 2 ^ 64 :=
    Nat.div_lt_of_lt_mul (by rwa [← Nat.pow_add])
  have bHi : liquidity / 2 ^ 64 < 2 ^ 64 := Nat.div_lt_of_lt_mul (by rwa [← Nat.pow_add])
  have aLo : wrappingSub (2 ^ 128) feeGrowthGlobal feeGrowthCheckpoint % 2 ^ 64 < 2 ^ 64 :=
    Nat.mod_lt _ (by decide)
  have bLo : liquidity % 2 ^ 64 < 2 ^ 64 := Nat.mod_lt _ (by decide)
  have high := mulUnsigned_halves checks aHi bLo
  have cross := mulUnsigned_halves checks aLo bHi
  have low := mulUnsigned_halves checks aLo bLo
  simp only [computeAccruedFeesChecked, high, cross, low]
  rfl

/-! ### The exact amount -/

/-- Of a sum the truncation loses at most one more unit than of its parts. -/
theorem div_add_cases (x y : ℕ) {m : ℕ} (positive : 0 < m) :
    (x + y) / m = x / m + y / m ∨ (x + y) / m = x / m + y / m + 1 := by
  rw [Nat.add_div positive]
  split
  · exact Or.inr rfl
  · exact Or.inl rfl

/-- The amount whose low 64 bits are returned. -/
def uncollected (growth liquidity : ℕ) : ℕ := growth * liquidity / 2 ^ 64

theorem computeAccruedFees_fits {feeGrowthGlobal feeGrowthCheckpoint liquidity : ℕ}
    (fits : uncollected (wrappingSub (2 ^ 128) feeGrowthGlobal feeGrowthCheckpoint) liquidity <
      2 ^ 64) :
    computeAccruedFees feeGrowthGlobal feeGrowthCheckpoint liquidity =
      uncollected (wrappingSub (2 ^ 128) feeGrowthGlobal feeGrowthCheckpoint) liquidity := by
  rw [computeAccruedFees_eq]
  exact Nat.mod_eq_of_lt fits

theorem uncollected_le_add (growth more liquidity : ℕ) :
    uncollected growth liquidity + uncollected more liquidity ≤
      uncollected (growth + more) liquidity := by
  have sum := div_add_cases (growth * liquidity) (more * liquidity) (show 0 < 2 ^ 64 by decide)
  rw [← Nat.add_mul] at sum
  simp only [uncollected]
  omega

/-- `compute_accrued_fees` is fixed-point multiplication: no product overflows, the result is the
truncated product, exact where it fits, and two collections in a row lose at most one unit
against one. -/
theorem accrued_fees_exact (liquidity : ℕ) (bounded : liquidity < 2 ^ 128) :
    (∀ checks feeGrowthGlobal feeGrowthCheckpoint,
      computeAccruedFeesChecked checks feeGrowthGlobal feeGrowthCheckpoint liquidity =
        .ok (computeAccruedFees feeGrowthGlobal feeGrowthCheckpoint liquidity)) ∧
    (∀ feeGrowthGlobal feeGrowthCheckpoint : ℕ, feeGrowthCheckpoint < 2 ^ 128 →
      (computeAccruedFees feeGrowthGlobal feeGrowthCheckpoint liquidity : ℤ) =
        ((feeGrowthGlobal : ℤ) - feeGrowthCheckpoint) % 2 ^ 128 * liquidity / 2 ^ 64 % 2 ^ 64) ∧
    (∀ feeGrowthCheckpoint growth, feeGrowthCheckpoint < 2 ^ 128 → growth < 2 ^ 128 →
      growth * liquidity / 2 ^ 64 < 2 ^ 64 →
      computeAccruedFees ((feeGrowthCheckpoint + growth) % 2 ^ 128) feeGrowthCheckpoint liquidity =
        growth * liquidity / 2 ^ 64) ∧
    (∀ c0 c1 c2, c0 < 2 ^ 128 → c1 < 2 ^ 128 → c2 < 2 ^ 128 →
      wrappingSub (2 ^ 128) c1 c0 + wrappingSub (2 ^ 128) c2 c1 < 2 ^ 128 →
      wrappingSub (2 ^ 128) c2 c0 * liquidity / 2 ^ 64 < 2 ^ 64 →
      computeAccruedFees c2 c0 liquidity =
          computeAccruedFees c1 c0 liquidity + computeAccruedFees c2 c1 liquidity ∨
        computeAccruedFees c2 c0 liquidity =
          computeAccruedFees c1 c0 liquidity + computeAccruedFees c2 c1 liquidity + 1) := by
  refine ⟨?_, ?_, ?_, ?_⟩
  · intro checks feeGrowthGlobal feeGrowthCheckpoint
    exact computeAccruedFeesChecked_eq checks bounded
  · intro feeGrowthGlobal feeGrowthCheckpoint inside
    have difference := wrappingSub_emod (a := feeGrowthGlobal) inside
    rw [computeAccruedFees_eq]
    push_cast at difference ⊢
    rw [difference]
  · intro feeGrowthCheckpoint growth inside small fits
    have delta := wrappingSub_add inside small
    have exact := computeAccruedFees_fits (show uncollected (wrappingSub (2 ^ 128)
      ((feeGrowthCheckpoint + growth) % 2 ^ 128) feeGrowthCheckpoint) liquidity < 2 ^ 64 by
        rw [delta]
        exact fits)
    rw [delta] at exact
    exact exact
  · intro c0 c1 c2 first second third total fits
    have growth := wrappingSub_split first second third total
    have whole : uncollected (wrappingSub (2 ^ 128) c2 c0) liquidity < 2 ^ 64 := fits
    -- the two parts fit where the whole does
    have parts := uncollected_le_add (wrappingSub (2 ^ 128) c1 c0) (wrappingSub (2 ^ 128) c2 c1)
      liquidity
    rw [growth] at whole
    rw [computeAccruedFees_fits fits, computeAccruedFees_fits (by omega),
      computeAccruedFees_fits (by omega), growth]
    have sum := div_add_cases (wrappingSub (2 ^ 128) c1 c0 * liquidity)
      (wrappingSub (2 ^ 128) c2 c1 * liquidity) (show 0 < 2 ^ 64 by decide)
    rw [← Nat.add_mul] at sum
    exact sum

/-- The counter wraps between the second and the third checkpoint. -/
theorem accrued_fees_exact_wrapped :
    computeAccruedFeesChecked true 5 (2 ^ 128 - 1) (3 * 2 ^ 64) =
        .ok (computeAccruedFees 5 (2 ^ 128 - 1) (3 * 2 ^ 64)) ∧
      computeAccruedFees 5 (2 ^ 128 - 1) (3 * 2 ^ 64) = 18 := by
  obtain ⟨checked, _, exact, _⟩ := accrued_fees_exact (3 * 2 ^ 64) (by decide)
  have amount := exact (2 ^ 128 - 1) 6 (by decide) (by decide) (by decide)
  have wrapped : (2 ^ 128 - 1 + 6) % 2 ^ 128 = 5 := by decide
  have value : 6 * (3 * 2 ^ 64) / 2 ^ 64 = 18 := by decide
  rw [wrapped, value] at amount
  exact ⟨checked true 5 (2 ^ 128 - 1), amount⟩

end TickLiq
