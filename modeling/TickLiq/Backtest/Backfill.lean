import TickLiq.Backtest.DbReplay

/-!
# Synthetic ticks from candles

`synthesize_ticks` turns candles into rows: a baseline row without growth at the
first close, then one row per candle whose token B growth has risen by the
candle's fees per unit of pool liquidity.
-/
namespace TickLiq

open Machine (Panic subChecked checked_unchecked accumulate bind_ok_iff)

structure OhlcvCandle (K : Type) where
  /-- In seconds. -/
  timestamp : ℤ
  close : K
  volumeUsd : K

structure PoolSynthParams (K : Type) where
  poolAddress : String
  feeRateBps : K
  poolLiquidity : ℕ
  decimalsA : ℕ
  decimalsB : ℕ
  tickSpacing : ℤ

structure PoolTick where
  poolAddress : String
  slot : ℤ
  tickCurrent : ℤ
  sqrtPrice : ℕ
  liquidity : ℕ
  feeGrowthGlobalA : ℕ
  feeGrowthGlobalB : ℕ
  /-- In microseconds. -/
  observedAt : ℤ

/-- `DateTime::from_timestamp(secs, 0).unwrap_or_default()`. -/
def fromTimestamp (secs : ℤ) : ℤ :=
  if -8334601228800 ≤ secs ∧ secs ≤ 8210266876799 then secs * 1000000 else 0

variable {K : Type} [F64 K]

namespace PoolSynthParams

def rawPrice (p : PoolSynthParams K) (c : OhlcvCandle K) : K :=
  c.close / F64.uiFactor p.decimalsA p.decimalsB

def feeRate (p : PoolSynthParams K) : K := p.feeRateBps / (10000 : ℕ)

def dfg (p : PoolSynthParams K) (volumeUsd : K) : K :=
  volumeUsd * p.feeRate * F64.tokenScale p.decimalsB / p.poolLiquidity * F64.twoPow64

def growAfter (p : PoolSynthParams K) (feeGrowthB : ℕ) (c : OhlcvCandle K) : ℕ :=
  if 0 < p.poolLiquidity ∧ 0 < c.volumeUsd then
    let dfg := p.dfg c.volumeUsd
    if F64.isFinite dfg ∧ 0 < dfg then
      let dfg := if (2 ^ 128 - 1 : ℕ) ≤ dfg then 2 ^ 128 - 1 else F64.toU128 dfg
      -- `saturating_add`
      min (feeGrowthB + dfg) (2 ^ 128 - 1)
    else feeGrowthB
  else feeGrowthB

def baselineRow (p : PoolSynthParams K) (checks : Bool) (first : OhlcvCandle K) :
    Except Panic PoolTick := do
  let slot ← subChecked checks 64 first.timestamp 1
  let tickCurrent ← priceToTick checks (p.rawPrice first) p.tickSpacing
  return {
    poolAddress := p.poolAddress
    slot := slot
    tickCurrent := tickCurrent
    sqrtPrice := F64.priceToSqrtQ64 (p.rawPrice first)
    liquidity := p.poolLiquidity
    feeGrowthGlobalA := 0
    feeGrowthGlobalB := 0
    observedAt := fromTimestamp first.timestamp }

def candleRow (p : PoolSynthParams K) (checks : Bool) (feeGrowthB : ℕ)
    (c : OhlcvCandle K) : Except Panic PoolTick := do
  let tickCurrent ← priceToTick checks (p.rawPrice c) p.tickSpacing
  return {
    poolAddress := p.poolAddress
    slot := c.timestamp
    tickCurrent := tickCurrent
    sqrtPrice := F64.priceToSqrtQ64 (p.rawPrice c)
    liquidity := p.poolLiquidity
    feeGrowthGlobalA := 0
    feeGrowthGlobalB := p.growAfter feeGrowthB c
    observedAt := fromTimestamp c.timestamp }

def candleRows (p : PoolSynthParams K) (checks : Bool) :
    ℕ → List (OhlcvCandle K) → Except Panic (List PoolTick)
  | _, [] => .ok []
  | feeGrowthB, c :: candles => do
    let row ← p.candleRow checks feeGrowthB c
    let rows ← candleRows p checks row.feeGrowthGlobalB candles
    return row :: rows

end PoolSynthParams

def synthesizeTicks (checks : Bool) (candles : List (OhlcvCandle K))
    (p : PoolSynthParams K) : Except Panic (List PoolTick) := do
  match candles with
  | [] => return []
  | first :: _ =>
    let baseline ← p.baselineRow checks first
    let rows ← p.candleRows checks 0 candles
    return baseline :: rows

def PoolTick.toRow (t : PoolTick) : PoolTickRow :=
  { time := t.observedAt
    poolAddress := t.poolAddress
    slot := t.slot
    tickCurrent := t.tickCurrent
    sqrtPrice := t.sqrtPrice
    liquidity := t.liquidity
    feeGrowthGlobalA := t.feeGrowthGlobalA
    feeGrowthGlobalB := t.feeGrowthGlobalB }

def toRows (ticks : List PoolTick) : List PoolTickRow := ticks.map PoolTick.toRow

namespace PoolSynthParams

variable {p : PoolSynthParams K}

theorem dfg_nonneg {p : PoolSynthParams ℝ} {volumeUsd : ℝ} (rate : 0 ≤ p.feeRateBps)
    (volume : 0 ≤ volumeUsd) : 0 ≤ p.dfg volumeUsd := by
  have scale := tokenScale_pos p.decimalsB
  have unit := twoPow64_pos
  simp only [dfg, feeRate]
  positivity

/-- Away from saturation a candle adds its truncated growth. -/
theorem growAfter_eq {p : PoolSynthParams ℝ} {feeGrowthB : ℕ} {c : OhlcvCandle ℝ}
    (liquid : 0 < p.poolLiquidity) (volume : 0 ≤ c.volumeUsd)
    (fits : feeGrowthB + ⌊p.dfg c.volumeUsd⌋₊ < 2 ^ 128) :
    p.growAfter feeGrowthB c = feeGrowthB + ⌊p.dfg c.volumeUsd⌋₊ := by
  have nothing : p.dfg c.volumeUsd ≤ 0 → ⌊p.dfg c.volumeUsd⌋₊ = 0 := Nat.floor_of_nonpos
  unfold growAfter
  dsimp only
  split
  next traded =>
    split
    next grows =>
      -- at `u128::MAX` and above both branches of the clamp are the same number here
      have clamp : (if (2 ^ 128 - 1 : ℕ) ≤ p.dfg c.volumeUsd then 2 ^ 128 - 1
          else F64.toU128 (p.dfg c.volumeUsd)) = ⌊p.dfg c.volumeUsd⌋₊ := by
        split
        next large =>
          have least : 2 ^ 128 - 1 ≤ ⌊p.dfg c.volumeUsd⌋₊ := by
            apply Nat.le_floor
            exact large
          omega
        next => rfl
      rw [clamp, Nat.min_eq_left (by omega)]
    next still => rw [nothing (not_lt.mp fun grows => still ⟨rfl, grows⟩), Nat.add_zero]
  next idle =>
    -- liquidity is positive, so the candle had no volume
    have zero : c.volumeUsd = 0 :=
      le_antisymm (not_lt.mp fun positive => idle ⟨liquid, positive⟩) volume
    have none : p.dfg c.volumeUsd ≤ 0 := by
      simp only [dfg]
      rw [zero]
      simp
    rw [nothing none, Nat.add_zero]

theorem candleRow_ok {checks : Bool} {feeGrowthB : ℕ} {c : OhlcvCandle K} {row : PoolTick}
    (returned : p.candleRow checks feeGrowthB c = .ok row) :
    ∃ tickCurrent, priceToTick checks (p.rawPrice c) p.tickSpacing = .ok tickCurrent ∧ row = {
      poolAddress := p.poolAddress
      slot := c.timestamp
      tickCurrent := tickCurrent
      sqrtPrice := F64.priceToSqrtQ64 (p.rawPrice c)
      liquidity := p.poolLiquidity
      feeGrowthGlobalA := 0
      feeGrowthGlobalB := p.growAfter feeGrowthB c
      observedAt := fromTimestamp c.timestamp } := by
  obtain ⟨tickCurrent, found, made⟩ := (bind_ok_iff ..).mp returned
  cases made
  exact ⟨tickCurrent, found, rfl⟩

theorem baselineRow_ok {checks : Bool} {first : OhlcvCandle K} {row : PoolTick}
    (returned : p.baselineRow checks first = .ok row) :
    ∃ slot tickCurrent, subChecked checks 64 first.timestamp 1 = .ok slot ∧
      priceToTick checks (p.rawPrice first) p.tickSpacing = .ok tickCurrent ∧ row = {
        poolAddress := p.poolAddress
        slot := slot
        tickCurrent := tickCurrent
        sqrtPrice := F64.priceToSqrtQ64 (p.rawPrice first)
        liquidity := p.poolLiquidity
        feeGrowthGlobalA := 0
        feeGrowthGlobalB := 0
        observedAt := fromTimestamp first.timestamp } := by
  obtain ⟨slot, before, returned⟩ := (bind_ok_iff ..).mp returned
  obtain ⟨tickCurrent, found, made⟩ := (bind_ok_iff ..).mp returned
  cases made
  exact ⟨slot, tickCurrent, before, found, rfl⟩

theorem candleRows_ok {checks : Bool} {feeGrowthB : ℕ} {c : OhlcvCandle K}
    {candles : List (OhlcvCandle K)} {rows : List PoolTick}
    (returned : p.candleRows checks feeGrowthB (c :: candles) = .ok rows) :
    ∃ row rest, p.candleRow checks feeGrowthB c = .ok row ∧
      p.candleRows checks row.feeGrowthGlobalB candles = .ok rest ∧ rows = row :: rest := by
  obtain ⟨row, first, returned⟩ := (bind_ok_iff ..).mp returned
  obtain ⟨rest, others, returned⟩ := (bind_ok_iff ..).mp returned
  cases returned
  exact ⟨row, rest, first, others, rfl⟩

/-- The growth column of the candle rows. -/
theorem candleRows_growth {p : PoolSynthParams ℝ} {checks : Bool} {feeGrowthB : ℕ}
    {rows : List PoolTick} (candles : List (OhlcvCandle ℝ)) (liquid : 0 < p.poolLiquidity)
    (volumes : ∀ c ∈ candles, 0 ≤ c.volumeUsd)
    (fits : feeGrowthB + (candles.map fun c => ⌊p.dfg c.volumeUsd⌋₊).sum < 2 ^ 128)
    (returned : p.candleRows checks feeGrowthB candles = .ok rows) :
    rows.map (·.feeGrowthGlobalB) =
      accumulate feeGrowthB (candles.map fun c => ⌊p.dfg c.volumeUsd⌋₊) := by
  induction candles generalizing feeGrowthB rows with
  | nil =>
    cases returned
    rfl
  | cons c candles ih =>
    obtain ⟨row, rest, first, others, split⟩ := candleRows_ok returned
    obtain ⟨_, _, made⟩ := candleRow_ok first
    subst split
    rw [List.map_cons, List.sum_cons, ← Nat.add_assoc] at fits
    -- away from saturation the row reads the sum so far
    have grown : row.feeGrowthGlobalB = feeGrowthB + ⌊p.dfg c.volumeUsd⌋₊ := by
      rw [made]
      exact growAfter_eq liquid (volumes c (List.mem_cons_self ..)) (by omega)
    rw [grown] at others
    have induction := ih (fun d member => volumes d (List.mem_cons_of_mem c member)) fits others
    rw [List.map_cons, List.map_cons, accumulate, grown, induction]

/-- Every candle row carries the pool's liquidity and no growth of token A. -/
theorem candleRows_pool {checks : Bool} {feeGrowthB : ℕ} {rows : List PoolTick}
    (candles : List (OhlcvCandle K))
    (returned : p.candleRows checks feeGrowthB candles = .ok rows) :
    ∀ row ∈ rows, row.liquidity = p.poolLiquidity ∧ row.sqrtPrice < 2 ^ 128 ∧
      row.feeGrowthGlobalA = 0 := by
  induction candles generalizing feeGrowthB rows with
  | nil =>
    cases returned
    intro row member
    cases member
  | cons c candles ih =>
    obtain ⟨head, rest, first, others, split⟩ := candleRows_ok returned
    obtain ⟨_, _, made⟩ := candleRow_ok first
    subst split
    intro row member
    rcases List.mem_cons.mp member with here | there
    · rw [here, made]
      exact ⟨rfl, F64.priceToSqrtQ64_lt _, rfl⟩
    · exact ih others row there

theorem candleRows_unchecked (positive : 0 < p.tickSpacing) (feeGrowthB : ℕ)
    (candles : List (OhlcvCandle K)) : ∃ rows, p.candleRows false feeGrowthB candles = .ok rows := by
  induction candles generalizing feeGrowthB with
  | nil => exact ⟨[], rfl⟩
  | cons c candles ih =>
    obtain ⟨tick, found⟩ := priceToTick_unchecked (p.rawPrice c) positive
    have made : ∃ row, p.candleRow false feeGrowthB c = .ok row := by
      simp only [candleRow]
      rw [found]
      exact ⟨_, rfl⟩
    obtain ⟨row, made⟩ := made
    obtain ⟨rows, others⟩ := ih row.feeGrowthGlobalB
    refine ⟨row :: rows, ?_⟩
    apply (bind_ok_iff ..).mpr
    refine ⟨row, made, ?_⟩
    apply (bind_ok_iff ..).mpr
    exact ⟨rows, others, rfl⟩

end PoolSynthParams

/-- Where integer arithmetic wraps, every candle list has rows. -/
theorem synthesizeTicks_unchecked {p : PoolSynthParams K} (positive : 0 < p.tickSpacing)
    (candles : List (OhlcvCandle K)) : ∃ ticks, synthesizeTicks false candles p = .ok ticks := by
  cases candles with
  | nil => exact ⟨[], rfl⟩
  | cons first candles =>
    obtain ⟨slot, before⟩ := checked_unchecked 64 (first.timestamp - 1)
    obtain ⟨tick, found⟩ := priceToTick_unchecked (p.rawPrice first) positive
    have made : ∃ row, p.baselineRow false first = .ok row := by
      simp only [PoolSynthParams.baselineRow, subChecked]
      rw [before, found]
      exact ⟨_, rfl⟩
    obtain ⟨baseline, made⟩ := made
    obtain ⟨rows, others⟩ := p.candleRows_unchecked positive 0 (first :: candles)
    refine ⟨baseline :: rows, ?_⟩
    apply (bind_ok_iff ..).mpr
    refine ⟨baseline, made, ?_⟩
    apply (bind_ok_iff ..).mpr
    exact ⟨rows, others, rfl⟩

/-- A backfill that returns is the baseline row and the candle rows. -/
theorem synthesizeTicks_ok {checks : Bool} {first : OhlcvCandle K} {candles : List (OhlcvCandle K)}
    {p : PoolSynthParams K} {ticks : List PoolTick}
    (returned : synthesizeTicks checks (first :: candles) p = .ok ticks) :
    ∃ baseline rows, p.baselineRow checks first = .ok baseline ∧
      p.candleRows checks 0 (first :: candles) = .ok rows ∧ ticks = baseline :: rows := by
  obtain ⟨baseline, made, returned⟩ := (bind_ok_iff ..).mp returned
  obtain ⟨rows, others, returned⟩ := (bind_ok_iff ..).mp returned
  cases returned
  exact ⟨baseline, rows, made, others, rfl⟩

/-- Candles leave rows to replay. -/
theorem synthesizeTicks_listed {checks : Bool} {candles : List (OhlcvCandle K)} {p : PoolSynthParams K}
    {ticks : List PoolTick} (listed : candles ≠ [])
    (returned : synthesizeTicks checks candles p = .ok ticks) : toRows ticks ≠ [] := by
  obtain ⟨first, rest, split⟩ := List.exists_cons_of_ne_nil listed
  subst split
  obtain ⟨baseline, rows, _, _, split⟩ := synthesizeTicks_ok returned
  rw [split]
  exact List.cons_ne_nil baseline.toRow (toRows rows)

end TickLiq
