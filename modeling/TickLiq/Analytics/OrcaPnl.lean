import TickLiq.Analytics.Amounts
import TickLiq.Math.IlShape
import TickLiq.Strategy.Signal

/-!
# Range and P&L of an Orca position

The one-shot commands and the watch loop tell whether a position is in range from
ticks, with both bounds counted in. The amounts are computed from sqrt prices, where
the upper bound is out.
-/
namespace TickLiq

open Machine (bind_ok_iff)

structure WhirlpoolPosition where
  liquidity : ℕ
  tickLowerIndex : ℤ
  tickUpperIndex : ℤ
  feeOwedA : ℕ
  feeOwedB : ℕ
deriving DecidableEq

structure WhirlpoolPool where
  sqrtPrice : ℕ
  tickCurrentIndex : ℤ
  tokenMintA : String
  tokenMintB : String
deriving DecidableEq

/-- What is fetched, and the entry-price cache. -/
structure OrcaSource where
  loadOrcaPositionAndPool : String → Except String (WhirlpoolPosition × WhirlpoolPool)
  fetchMintDecimals : String → Except String ℕ
  saveEntryPrice : String → ℝ → Except String Unit
  loadEntryPrice : String → Option ℝ

structure OrcaPnl where
  pos : WhirlpoolPosition
  pool : WhirlpoolPool
  decimalsA : ℕ
  decimalsB : ℕ
  priceCurrent : ℝ
  priceLower : ℝ
  priceUpper : ℝ
  inRange : Bool
  amounts : TokenAmounts
  feesUsd : ℝ
  ilUsd : ℝ
  positionValue : ℝ
  netPnlUsd : ℝ

def resolveEntryPrice (source : OrcaSource) (mint : String) (flag : Option ℝ) :
    Except String ℝ :=
  match flag with
  | some ep => do
    source.saveEntryPrice mint ep
    return ep
  | none =>
    match source.loadEntryPrice mint with
    | some ep => .ok ep
    | none => .ok 0

noncomputable def computeOrcaPnl (core : WhirlpoolsCore) (source : OrcaSource) (mint : String)
    (entryPrice : Option ℝ) : Except String OrcaPnl := do
  let (pos, pool) ← source.loadOrcaPositionAndPool mint
  let decimalsA ← source.fetchMintDecimals pool.tokenMintA
  let decimalsB ← source.fetchMintDecimals pool.tokenMintB
  let priceCurrent := sqrtQ64ToUiPrice pool.sqrtPrice decimalsA decimalsB
  let priceLower := sqrtQ64ToUiPrice (core.tickIndexToSqrtPrice pos.tickLowerIndex)
    decimalsA decimalsB
  let priceUpper := sqrtQ64ToUiPrice (core.tickIndexToSqrtPrice pos.tickUpperIndex)
    decimalsA decimalsB
  let inRange := decide (pos.tickLowerIndex ≤ pool.tickCurrentIndex) &&
    decide (pool.tickCurrentIndex ≤ pos.tickUpperIndex)
  let amounts ← computeTokenAmounts core pos.liquidity pool.sqrtPrice pos.tickLowerIndex
    pos.tickUpperIndex
  let scaleA := tokenScale decimalsA
  let scaleB := tokenScale decimalsB
  let feesUsd := pos.feeOwedA / scaleA * priceCurrent + pos.feeOwedB / scaleB
  let priceEntry ← resolveEntryPrice source mint entryPrice
  let ilFraction := computeIl priceEntry priceCurrent priceLower priceUpper
  let positionValue := amounts.amountA / scaleA * priceCurrent + amounts.amountB / scaleB
  let ilUsd := ilFraction * positionValue
  let netPnlUsd := feesUsd + ilUsd
  return { pos, pool, decimalsA, decimalsB, priceCurrent, priceLower, priceUpper, inRange, amounts,
           feesUsd, ilUsd, positionValue, netPnlUsd }

/-- `in_range` of the watch loop. -/
def Watch.inRange (pos : WhirlpoolPosition) (pool : WhirlpoolPool) : Bool :=
  decide (pos.tickLowerIndex ≤ pool.tickCurrentIndex) &&
    decide (pool.tickCurrentIndex ≤ pos.tickUpperIndex)

theorem Watch.inRange_iff (pos : WhirlpoolPosition) (pool : WhirlpoolPool) :
    inRange pos pool = true ↔
      pos.tickLowerIndex ≤ pool.tickCurrentIndex ∧ pool.tickCurrentIndex ≤ pos.tickUpperIndex := by
  simp only [inRange, Bool.and_eq_true, decide_eq_true_iff]

/-- The one-shot flag is that of the watch loop, on the position and pool it returns. -/
theorem computeOrcaPnl_inRange {core : WhirlpoolsCore} {source : OrcaSource} {mint : String}
    {entryPrice : Option ℝ} {pnl : OrcaPnl}
    (returned : computeOrcaPnl core source mint entryPrice = .ok pnl) :
    source.loadOrcaPositionAndPool mint = .ok (pnl.pos, pnl.pool) ∧
      pnl.inRange = Watch.inRange pnl.pos pnl.pool := by
  obtain ⟨⟨pos, pool⟩, loaded, returned⟩ := (bind_ok_iff ..).mp returned
  obtain ⟨decimalsA, _, returned⟩ := (bind_ok_iff ..).mp returned
  obtain ⟨decimalsB, _, returned⟩ := (bind_ok_iff ..).mp returned
  obtain ⟨amounts, _, returned⟩ := (bind_ok_iff ..).mp returned
  obtain ⟨priceEntry, _, returned⟩ := (bind_ok_iff ..).mp returned
  cases returned
  exact ⟨loaded, rfl⟩

end TickLiq
