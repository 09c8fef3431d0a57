import TickLiq.Analytics.Amounts
import TickLiq.Data.CexFeed
import TickLiq.Execution.Rebalance
import TickLiq.Machine.JsonValue
import TickLiq.Math.Fees
import TickLiq.Math.IlShape
import TickLiq.Protocols.Accounts
import TickLiq.Strategy.Signal
import TickLiq.Watch.RebalanceGate

/-!
# What a tick computes

The pool comes from the notification itself where it carries the account, and from an RPC
fetch otherwise. The price comes from the exchange while that is fresh, the ticks never do.
-/
namespace TickLiq.Watch

open Machine (Binary64 Bytes JsonValue Panic addUnsigned bind_ok_iff subChecked)
open CexFeed (CexPrice fromSecs)

/-- The float functions of the analytics modules, and what a float of the exchange feed is. -/
structure Pricing (K : Type*) where
  ofF64 : Binary64 → K
  sqrtQ64ToUiPrice : ℕ → ℕ → ℕ → K
  tokenScale : ℕ → K
  computeIl : K → K → K → K → K

/-- The ones of the source, on exact reals. -/
noncomputable def Pricing.source : Pricing ℝ :=
  ⟨fun price => price.toRat, TickLiq.sqrtQ64ToUiPrice, TickLiq.tokenScale, TickLiq.computeIl⟩

/-- What a tick uses and does not change: the crates it calls, and how it was built. -/
structure TickEnv (K : Type*) where
  core : WhirlpoolsCore
  /-- `base64::engine::general_purpose::STANDARD.decode` -/
  decode : String → Option Bytes
  pricing : Pricing K
  checks : Bool

/-- What is fixed at watch start. -/
structure WatchConfig (K : Type*) where
  mint : String
  poolAddress : String
  feeGrowthBaselineA : ℕ
  feeGrowthBaselineB : ℕ
  decimalsA : ℕ
  decimalsB : ℕ
  entryPrice : K

/-! ### Pool and price -/

def accountDataFromNotification (decode : String → Option Bytes) (json : JsonValue) :
    Option Bytes := do
  let data ← json.pointer ["params", "result", "value", "data", "0"]
  let b64 ← data.asStr
  decode b64

/-- The pool of this tick, or the warning with which the tick is skipped. -/
def tickPool (decode : String → Option Bytes) (json : JsonValue)
    (fetched : Except String Bytes) : Except String Orca.WhirlpoolPool :=
  match accountDataFromNotification decode json with
  | some bytes =>
    (Orca.parsePool bytes).mapError ("Failed to parse notification pool data: " ++ ·)
  | none => do
    let data ← fetched.mapError ("Failed to fetch pool data: " ++ ·)
    (Orca.parsePool data).mapError ("Failed to parse pool: " ++ ·)

def notifiedSlot (json : JsonValue) : Option ℤ := do
  let slot ← json.pointer ["params", "result", "context", "slot"]
  slot.asI64

/-- `CEX_STALE_SECS` -/
def cexStaleSecs : ℕ := 30

/-- `elapsed().as_secs() < CEX_STALE_SECS`: the fraction of a second does not count. -/
def CexPrice.isFresh (cp : CexPrice) (now : ℕ) : Bool :=
  decide ((now - cp.updatedAt) / fromSecs 1 < cexStaleSecs)

variable {K : Type} [Field K] [LinearOrder K]

omit [Field K] [LinearOrder K] in
/-- The price of the tick, and whether the exchange is stale after it. -/
def resolvePrice (pricing : Pricing K) (onchainPrice : K) (cex : Option CexPrice) (now : ℕ)
    (wasStale : Bool) : K × Bool :=
  match cex with
  | some cp =>
    if CexPrice.isFresh cp now then (pricing.ofF64 cp.price, false) else (onchainPrice, true)
  | none => (onchainPrice, wasStale)

theorem CexPrice.isFresh_lt {cp : CexPrice} {now : ℕ} (fresh : CexPrice.isFresh cp now = true) :
    now < cp.updatedAt + fromSecs cexStaleSecs := by
  have young : (now - cp.updatedAt) / fromSecs 1 < cexStaleSecs := of_decide_eq_true fresh
  simp only [fromSecs, cexStaleSecs] at young ⊢
  omega

omit [Field K] [LinearOrder K] in
theorem resolvePrice_cases (pricing : Pricing K) (onchainPrice : K) (cex : Option CexPrice)
    (now : ℕ) (wasStale : Bool) :
    (resolvePrice pricing onchainPrice cex now wasStale).1 = onchainPrice ∨
      ∃ cp, cex = some cp ∧ now < cp.updatedAt + fromSecs cexStaleSecs ∧
        (resolvePrice pricing onchainPrice cex now wasStale).1 = pricing.ofF64 cp.price := by
  cases cex with
  | none => exact Or.inl rfl
  | some cp =>
    simp only [resolvePrice]
    split
    next fresh => exact Or.inr ⟨cp, rfl, CexPrice.isFresh_lt fresh, rfl⟩
    next => exact Or.inl rfl

/-! ### Value, fees and loss -/

structure Valuation (K : Type*) where
  price : K
  inRange : Bool
  feesEarned : K
  ilUsd : K
  positionValue : K
deriving DecidableEq

def Valuation.netPnl (v : Valuation K) : K := v.feesEarned - |v.ilUsd|

/-- `fee_owed + accrued`, in `u64`. -/
def owedFees (checks : Bool) (feeOwed : U64) (feeGrowthGlobal : U128) (baseline : ℕ)
    (liquidity : U128) : Except Panic ℕ :=
  addUnsigned checks 64 feeOwed.val
    (computeAccruedFees feeGrowthGlobal.val baseline liquidity.val)

def valuate (env : TickEnv K) (config : WatchConfig K) (pos : Orca.WhirlpoolPosition)
    (pool : Orca.WhirlpoolPool) (price : K) : Except Panic (Valuation K) := do
  let scaleA := env.pricing.tokenScale config.decimalsA
  let scaleB := env.pricing.tokenScale config.decimalsB
  let feesA ← owedFees env.checks pos.feeOwedA pool.feeGrowthGlobalA config.feeGrowthBaselineA
    pos.liquidity
  let feesB ← owedFees env.checks pos.feeOwedB pool.feeGrowthGlobalB config.feeGrowthBaselineB
    pos.liquidity
  let positionValue :=
    match computeTokenAmounts env.core pos.liquidity.val pool.sqrtPrice.val
      pos.tickLowerIndex.val pos.tickUpperIndex.val with
    | .ok amounts => amounts.amountA / scaleA * price + amounts.amountB / scaleB
    | .error _ => 0
  let priceAt := fun tick : ℤ => env.pricing.sqrtQ64ToUiPrice (env.core.tickIndexToSqrtPrice tick)
    config.decimalsA config.decimalsB
  let ilFraction := env.pricing.computeIl config.entryPrice price
    (priceAt pos.tickLowerIndex.val) (priceAt pos.tickUpperIndex.val)
  return {
    price
    inRange := decide (pos.tickLowerIndex.val ≤ pool.tickCurrentIndex.val) &&
      decide (pool.tickCurrentIndex.val ≤ pos.tickUpperIndex.val)
    feesEarned := feesA / scaleA * price + feesB / scaleB
    ilUsd := ilFraction * positionValue
    positionValue }

omit [LinearOrder K] in
theorem valuate_price {env : TickEnv K} {config : WatchConfig K} {pos : Orca.WhirlpoolPosition}
    {pool : Orca.WhirlpoolPool} {price : K} {v : Valuation K}
    (valued : valuate env config pos pool price = .ok v) : v.price = price := by
  obtain ⟨feesA, _, valued⟩ := (bind_ok_iff ..).mp valued
  obtain ⟨feesB, _, valued⟩ := (bind_ok_iff ..).mp valued
  cases valued
  rfl

/-- A row of `pnl_history`. -/
structure PnlRow (K : Type*) where
  time : ℤ
  mint : String
  poolAddress : String
  feesEarned : K
  ilUsd : K
  netPnl : K
  positionValue : K
  price : K
deriving DecidableEq

def Valuation.pnlRow (v : Valuation K) (config : WatchConfig K) (observedAt : ℤ) : PnlRow K where
  time := observedAt
  mint := config.mint
  poolAddress := config.poolAddress
  feesEarned := v.feesEarned
  ilUsd := v.ilUsd
  netPnl := v.netPnl
  positionValue := v.positionValue
  price := v.price

def Valuation.snapshot (v : Valuation K) : PnlSnapshot K := ⟨v.ilUsd, v.netPnl, v.positionValue⟩

/-- `RebalanceConfig::default()` -/
def defaultRebalanceConfig : RebalanceConfig K := ⟨true, 10, 0⟩

def rebalanceDecision (checks : Bool) (pos : Orca.WhirlpoolPosition) (pool : Orca.WhirlpoolPool)
    (v : Valuation K) : Except Panic RebalanceDecision :=
  shouldRebalance checks pool.tickCurrentIndex.val pos.tickLowerIndex.val pos.tickUpperIndex.val
    (v.feesEarned + v.ilUsd) defaultRebalanceConfig

/-! ### The plan -/

def rebalancePlan (checks : Bool) (mint : String) (pos : Orca.WhirlpoolPosition)
    (pool : Orca.WhirlpoolPool) : Except Panic RebalancePlan :=
  buildRebalancePlan checks mint pool.tickCurrentIndex.val pos.tickLowerIndex.val
    pos.tickUpperIndex.val pool.tickSpacing.val

/-- `(plan.new_tick_upper - plan.new_tick_lower) as f64` -/
def rangeWidth (checks : Bool) (plan : RebalancePlan) : Except Panic ℤ :=
  subChecked checks 32 plan.newTickUpper plan.newTickLower

end TickLiq.Watch
