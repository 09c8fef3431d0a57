import Mathlib.Data.Int.Interval
import TickLiq.Analytics.OrcaPnl

/-!
# Where the liquidity of a position is

A position whose pool stands exactly on its upper tick holds token B only and earns
nothing, yet is reported in range and left to the P&L gate. On every other tick the
flags, the signal and the amounts agree.
-/
namespace TickLiq

section Agreement

variable {core : WhirlpoolsCore} {ticks : Set ℤ} {pos : WhirlpoolPosition} {pool : WhirlpoolPool}

/-- The branch `compute_token_amounts` takes for a position in its pool. -/
def sideOf (core : WhirlpoolsCore) (pos : WhirlpoolPosition) (pool : WhirlpoolPool) : RangeSide :=
  core.rangeSide pool.sqrtPrice pos.tickLowerIndex pos.tickUpperIndex

/-- Off the range the signal fires, whatever the P&L. -/
def FiresOutside (core : WhirlpoolsCore) (checks : Bool) (config : RebalanceConfig ℝ)
    (pos : WhirlpoolPosition) (pool : WhirlpoolPool) : Prop :=
  sideOf core pos pool ≠ .within → ∀ netPnlUsd, ∃ reason,
    shouldRebalance checks pool.tickCurrentIndex pos.tickLowerIndex pos.tickUpperIndex netPnlUsd
      config = .ok (.rebalance reason)

/-- A position of valid ticks in a pool whose tick is that of its sqrt price. -/
structure Located (core : WhirlpoolsCore) (ticks : Set ℤ) (pos : WhirlpoolPosition)
    (pool : WhirlpoolPool) : Prop where
  increasing : StrictMonoOn core.tickIndexToSqrtPrice ticks
  lower : pos.tickLowerIndex ∈ ticks
  upper : pos.tickUpperIndex ∈ ticks
  ordered : pos.tickLowerIndex < pos.tickUpperIndex
  current : core.TickOf ticks pool.sqrtPrice pool.tickCurrentIndex

variable (located : Located core ticks pos pool)
include located

theorem sideOf_within_iff : sideOf core pos pool = .within ↔
    pos.tickLowerIndex ≤ pool.tickCurrentIndex ∧ pool.tickCurrentIndex < pos.tickUpperIndex :=
  rangeSide_within_iff located.increasing located.current located.lower located.upper

theorem watch_inRange_agrees_iff :
    (Watch.inRange pos pool = true ↔ sideOf core pos pool = .within) ↔
      pool.tickCurrentIndex ≠ pos.tickUpperIndex := by
  have ordered := located.ordered
  rw [Watch.inRange_iff, sideOf_within_iff located]
  constructor
  · intro agree onUpper
    have inside := (agree.mp ⟨by omega, by omega⟩).2
    omega
  · intro off
    omega

theorem firesOutside_iff (checks : Bool) {config : RebalanceConfig ℝ}
    (on : config.rebalanceOutOfRange = true) :
    FiresOutside core checks config pos pool ↔ pool.tickCurrentIndex ≠ pos.tickUpperIndex := by
  have ordered := located.ordered
  have within := sideOf_within_iff located
  constructor
  · intro fires onUpper
    have outside : sideOf core pos pool ≠ .within := by
      intro inside
      have short := (within.mp inside).2
      omega
    -- a dollar under the threshold, the gate holds a position that is all token B
    obtain ⟨reason, decided⟩ := fires outside (config.minNetPnlUsd - 1)
    simp only [shouldRebalance] at decided
    rw [if_neg (by omega), if_pos (sub_one_lt _)] at decided
    cases decided
  · intro off outside netPnlUsd
    have beyond : pool.tickCurrentIndex < pos.tickLowerIndex ∨
        pos.tickUpperIndex < pool.tickCurrentIndex := by
      have missed := mt within.mpr outside
      omega
    exact ⟨"out of range", if_pos ⟨on, beyond⟩⟩

/-- Flags and signal agree with where the liquidity is on every tick but the upper bound. -/
theorem in_range_agrees_iff :
    (∀ source mint entryPrice pnl, computeOrcaPnl core source mint entryPrice = .ok pnl →
      pnl.pos = pos → pnl.pool = pool →
        ((pnl.inRange = true ↔ sideOf core pos pool = .within) ↔
          pool.tickCurrentIndex ≠ pos.tickUpperIndex)) ∧
    ((Watch.inRange pos pool = true ↔ sideOf core pos pool = .within) ↔
      pool.tickCurrentIndex ≠ pos.tickUpperIndex) ∧
    (∀ checks config, config.rebalanceOutOfRange = true →
      (FiresOutside core checks config pos pool ↔
        pool.tickCurrentIndex ≠ pos.tickUpperIndex)) := by
  refine ⟨?_, watch_inRange_agrees_iff located, fun checks _ on => firesOutside_iff located checks on⟩
  intro source mint entryPrice pnl returned samePos samePool
  rw [(computeOrcaPnl_inRange returned).2, samePos, samePool]
  exact watch_inRange_agrees_iff located

end Agreement

/-! ### On the upper bound -/

/-- Exact sqrt prices at the ticks `-1`, `0` and `1`, straight lines beyond them; amounts
rounded down. -/
def lineCore : WhirlpoolsCore where
  tickIndexToSqrtPrice tick :=
    if tick < 0 then (18445821805675392312 + tick).toNat
    else (2 ^ 64 + 922314146408234 * tick).toNat
  tryGetAmountDeltaA sqrtPrice1 sqrtPrice2 liquidity _ :=
    .ok (liquidity * (sqrtPrice2 - sqrtPrice1) * 2 ^ 64 / (sqrtPrice1 * sqrtPrice2))
  tryGetAmountDeltaB sqrtPrice1 sqrtPrice2 liquidity _ :=
    .ok (liquidity * (sqrtPrice2 - sqrtPrice1) / 2 ^ 64)

/-- `MIN_TICK_INDEX..=MAX_TICK_INDEX` -/
def validTicks : Set ℤ := Set.Icc (-443636) 443636

theorem lineCore_increasing : StrictMonoOn lineCore.tickIndexToSqrtPrice validTicks := by
  intro s left t right before
  obtain ⟨low, _⟩ := left
  simp only [lineCore]
  split <;> split <;> omega

def unitPosition : WhirlpoolPosition := ⟨1000000, -1, 1, 0, 0⟩

/-- A pool at the sqrt price of a tick. -/
def poolAt (tick : ℤ) : WhirlpoolPool := ⟨lineCore.tickIndexToSqrtPrice tick, tick, "SOL", "USDC"⟩

theorem unitPosition_located {tick : ℤ} (valid : tick ∈ validTicks) :
    Located lineCore validTicks unitPosition (poolAt tick) where
  increasing := lineCore_increasing
  lower := ⟨by decide, by decide⟩
  upper := ⟨by decide, by decide⟩
  ordered := by decide
  current := by
    refine ⟨⟨valid, le_rfl⟩, ?_⟩
    intro t under
    exact (lineCore_increasing.le_iff_le under.1 valid).mp under.2

/-- An account list with one position, priced at its own tick and never cached. -/
def unitSource (tick : ℤ) : OrcaSource where
  loadOrcaPositionAndPool _ := .ok (unitPosition, poolAt tick)
  fetchMintDecimals _ := .ok 6
  saveEntryPrice _ _ := .ok ()
  loadEntryPrice _ := none

/-- In the middle of the range all four places agree. -/
theorem in_range_agrees_middle :
    Located lineCore validTicks unitPosition (poolAt 0) ∧
    (∀ source mint entryPrice pnl, computeOrcaPnl lineCore source mint entryPrice = .ok pnl →
      pnl.pos = unitPosition → pnl.pool = poolAt 0 →
        ((pnl.inRange = true ↔ sideOf lineCore unitPosition (poolAt 0) = .within) ↔
          (poolAt 0).tickCurrentIndex ≠ unitPosition.tickUpperIndex)) ∧
    ((Watch.inRange unitPosition (poolAt 0) = true ↔
        sideOf lineCore unitPosition (poolAt 0) = .within) ↔
      (poolAt 0).tickCurrentIndex ≠ unitPosition.tickUpperIndex) ∧
    (∀ checks config, config.rebalanceOutOfRange = true →
      (FiresOutside lineCore checks config unitPosition (poolAt 0) ↔
        (poolAt 0).tickCurrentIndex ≠ unitPosition.tickUpperIndex)) :=
  have located := unitPosition_located (show 0 ∈ validTicks from ⟨by decide, by decide⟩)
  ⟨located, in_range_agrees_iff located⟩

/-- On its upper tick a position is all token B, reported in range and held at a loss. -/
theorem upper_bound_reported_in_range :
    Located lineCore validTicks unitPosition (poolAt 1) ∧
    computeTokenAmounts lineCore 1000000 (poolAt 1).sqrtPrice (-1) 1 = .ok ⟨0, 99⟩ ∧
    sideOf lineCore unitPosition (poolAt 1) = .above ∧
    (∃ pnl, computeOrcaPnl lineCore (unitSource 1) "mint" none = .ok pnl ∧ pnl.inRange = true) ∧
    Watch.inRange unitPosition (poolAt 1) = true ∧
    (∀ checks, shouldRebalance checks 1 (-1) 1 (-1 : ℝ) ⟨true, 10, 0⟩ =
      .ok (.hold "P&L below threshold")) := by
  refine ⟨unitPosition_located ⟨by decide, by decide⟩, rfl, rfl, ⟨_, rfl, rfl⟩, rfl, ?_⟩
  intro checks
  simp only [shouldRebalance]
  rw [if_neg (by decide), if_pos (by norm_num)]

end TickLiq
