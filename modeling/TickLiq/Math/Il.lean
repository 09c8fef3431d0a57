import Mathlib.Analysis.Real.Sqrt

/-!
# Impermanent loss

`compute_il` compares a concentrated position with its entry holdings, both at the
current price. A negative price has no square root: the NaN it gives runs through
to the last `min`, which drops it for zero.
-/
namespace TickLiq

noncomputable def computeIl (priceEntry priceCurrent priceLower priceUpper : ℝ) : ℝ :=
  if priceEntry = 0 then 0
  else
    -- the root of a negative bound is zero here, which the guard turns away as it does NaN
    let pa := √priceLower
    let pb := √priceUpper
    if pa ≤ 0 ∨ pb ≤ pa then 0
    else if priceEntry < 0 ∨ priceCurrent < 0 then 0
    else
      let sp0 := min (max √priceEntry pa) pb
      let sp1 := min (max √priceCurrent pa) pb
      let x0 := 1 / sp0 - 1 / pb
      let y0 := sp0 - pa
      let x1 := 1 / sp1 - 1 / pb
      let y1 := sp1 - pa
      let vHodl := x0 * priceCurrent + y0
      let vLp := x1 * priceCurrent + y1
      if vHodl ≤ 0 then 0 else min (vLp / vHodl - 1) 0

/-- At its entry price a position has lost nothing. -/
theorem computeIl_self (price priceLower priceUpper : ℝ) :
    computeIl price price priceLower priceUpper = 0 := by
  unfold computeIl
  dsimp only
  split
  · rfl
  split
  · rfl
  split
  · rfl
  split
  · rfl
  next positive => rw [div_self (not_le.mp positive).ne', sub_self, min_self]

end TickLiq
