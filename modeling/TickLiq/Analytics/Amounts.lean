import Mathlib.Order.ConditionallyCompleteLattice.Basic
import Mathlib.Data.Int.ConditionallyCompleteOrder
import Mathlib.Order.Bounds.Defs
import Mathlib.Order.Monotone.Basic
import Mathlib.Order.Nat

/-!
# Token amounts of a position

`compute_token_amounts` compares sqrt prices, and the whirlpool crate turns the
bounds of a position into sqrt prices.
-/
namespace TickLiq

/-- What is used of `orca_whirlpools_core`; an error is the text that `{:?}` prints. -/
structure WhirlpoolsCore where
  tickIndexToSqrtPrice : ℤ → ℕ
  tryGetAmountDeltaA : ℕ → ℕ → ℕ → Bool → Except String ℕ
  tryGetAmountDeltaB : ℕ → ℕ → ℕ → Bool → Except String ℕ

/-- Raw units, before decimals. -/
structure TokenAmounts where
  amountA : ℕ
  amountB : ℕ
deriving DecidableEq

/-- Which branch `compute_token_amounts` takes. -/
inductive RangeSide where
  | below
  | above
  | within
deriving DecidableEq

variable (core : WhirlpoolsCore)

namespace WhirlpoolsCore

def rangeSide (sqrtPrice : ℕ) (tickLower tickUpper : ℤ) : RangeSide :=
  if sqrtPrice < core.tickIndexToSqrtPrice tickLower then .below
  else if core.tickIndexToSqrtPrice tickUpper ≤ sqrtPrice then .above
  else .within

def amountDeltaA (sqrtPrice1 sqrtPrice2 liquidity : ℕ) : Except String ℕ :=
  (core.tryGetAmountDeltaA sqrtPrice1 sqrtPrice2 liquidity false).mapError
    ("Failed to compute amount A: " ++ ·)

def amountDeltaB (sqrtPrice1 sqrtPrice2 liquidity : ℕ) : Except String ℕ :=
  (core.tryGetAmountDeltaB sqrtPrice1 sqrtPrice2 liquidity false).mapError
    ("Failed to compute amount B: " ++ ·)

end WhirlpoolsCore

def computeTokenAmounts (liquidity sqrtPrice : ℕ) (tickLower tickUpper : ℤ) :
    Except String TokenAmounts := do
  let sqrtLower := core.tickIndexToSqrtPrice tickLower
  let sqrtUpper := core.tickIndexToSqrtPrice tickUpper
  match core.rangeSide sqrtPrice tickLower tickUpper with
  | .below => return ⟨← core.amountDeltaA sqrtLower sqrtUpper liquidity, 0⟩
  | .above => return ⟨0, ← core.amountDeltaB sqrtLower sqrtUpper liquidity⟩
  | .within =>
    let amountA ← core.amountDeltaA sqrtPrice sqrtUpper liquidity
    let amountB ← core.amountDeltaB sqrtLower sqrtPrice liquidity
    return ⟨amountA, amountB⟩

/-- `tick` is the tick of `sqrtPrice` among `ticks`: the greatest one not past it. -/
def WhirlpoolsCore.TickOf (ticks : Set ℤ) (sqrtPrice : ℕ) (tick : ℤ) : Prop :=
  IsGreatest {t | t ∈ ticks ∧ core.tickIndexToSqrtPrice t ≤ sqrtPrice} tick

section Ticks

variable {core} {ticks : Set ℤ} {sqrtPrice : ℕ} {tickCurrent tickLower tickUpper : ℤ}
  (increasing : StrictMonoOn core.tickIndexToSqrtPrice ticks)
  (current : core.TickOf ticks sqrtPrice tickCurrent)
include increasing current

/-- A tick starts at or under the price exactly when it is at or under the current tick. -/
theorem tickIndexToSqrtPrice_le_iff {tick : ℤ} (valid : tick ∈ ticks) :
    core.tickIndexToSqrtPrice tick ≤ sqrtPrice ↔ tick ≤ tickCurrent := by
  obtain ⟨reached, greatest⟩ := current
  constructor
  · intro under
    exact greatest ⟨valid, under⟩
  · intro under
    exact ((increasing.le_iff_le valid reached.1).mpr under).trans reached.2

variable (lower : tickLower ∈ ticks) (upper : tickUpper ∈ ticks)
include lower upper

/-- The range that holds liquidity is half open in ticks as it is in sqrt prices. -/
theorem rangeSide_eq : core.rangeSide sqrtPrice tickLower tickUpper =
    if tickCurrent < tickLower then .below else if tickUpper ≤ tickCurrent then .above
    else .within := by
  have fromLower : sqrtPrice < core.tickIndexToSqrtPrice tickLower ↔ tickCurrent < tickLower := by
    rw [← not_le, ← not_le, tickIndexToSqrtPrice_le_iff increasing current lower]
  have toUpper := tickIndexToSqrtPrice_le_iff increasing current upper
  simp only [WhirlpoolsCore.rangeSide, fromLower, toUpper]

theorem rangeSide_within_iff : core.rangeSide sqrtPrice tickLower tickUpper = .within ↔
    tickLower ≤ tickCurrent ∧ tickCurrent < tickUpper := by
  rw [rangeSide_eq increasing current lower upper]
  split
  next below => simp [not_le.mpr below]
  next reached =>
    split
    next above => simp [not_lt.mpr above]
    next inside => simp [not_lt.mp reached, not_le.mp inside]

end Ticks

end TickLiq
