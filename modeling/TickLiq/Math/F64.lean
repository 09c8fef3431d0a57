import TickLiq.Machine.Checked
import TickLiq.Math.Il
import TickLiq.Math.SqrtPrice

/-!
# The numbers of the engines

The engines count in `f64`. What they use of it, operators, constants and the functions of
`math`, is a class here, so that one engine can be read in the rounded numbers of the program
and in exact ones.
-/
namespace TickLiq

class F64 (K : Type) extends Zero K, NatCast K, OfScientific K, Add K, Sub K, Mul K, Div K, Max K,
    LT K, LE K where
  decidableLT : DecidableLT K
  decidableLE : DecidableLE K
  /-- `TWO_POW_64` -/
  twoPow64 : K
  /-- `10f64.powi(decimals as i32)` -/
  tokenScale : ℕ → K
  /-- `10f64.powi(decimals_a as i32 - decimals_b as i32)` -/
  uiFactor : ℕ → ℕ → K
  sqrtQ64ToPrice : ℕ → K
  priceToSqrtQ64 : K → ℕ
  priceToSqrtQ64_lt : ∀ price, priceToSqrtQ64 price < 2 ^ 128
  computeIl : K → K → K → K → K
  /-- `(price.ln() / 1.0001_f64.ln()).floor() as i32` -/
  rawTick : K → ℤ
  rawTick_inRange : ∀ price, Machine.InRange 32 (rawTick price)
  isFinite : K → Bool
  /-- `as u128` -/
  toU128 : K → ℕ

attribute [reducible, instance] F64.decidableLT F64.decidableLE

-- the reals and the doubles keep their own operators
attribute [instance (low)] F64.toZero F64.toNatCast F64.toOfScientific F64.toAdd F64.toSub F64.toMul
  F64.toDiv F64.toMax F64.toLT F64.toLE

end TickLiq
