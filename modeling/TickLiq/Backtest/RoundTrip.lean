import TickLiq.Backtest.Backfill
import TickLiq.Machine.Truncation

/-!
# A backfill replayed

The replay of synthetic rows pays a position its share of every candle's fees, the
first included, short of what truncating the growth takes. Prices, dates, the range
and the rebalances stay outside the sum.
-/
namespace TickLiq

open Machine (steppedGrowth steppedGrowth_accumulate truncatedSum truncatedSum_le
  sum_le_truncatedSum)

/-- The share of `positionLiquidity` in the fees of all candles. -/
noncomputable def feeShare (candles : List (OhlcvCandle ℝ)) (p : PoolSynthParams ℝ)
    (positionLiquidity : ℕ) : ℝ :=
  (candles.map fun c =>
    c.volumeUsd * p.feeRate * (positionLiquidity / p.poolLiquidity)).sum

/-- What the truncated growth of the candles is worth to `positionLiquidity`. -/
noncomputable def truncatedShare (volumes : List ℝ) (feeRate : ℝ)
    (poolLiquidity decimalsB positionLiquidity : ℕ) : ℝ :=
  (truncatedSum (volumes.map fun volumeUsd =>
    volumeUsd * feeRate * tokenScale decimalsB / poolLiquidity * twoPow64) : ℝ) / twoPow64 *
    positionLiquidity / tokenScale decimalsB

/-- The replayed fees `fees` are the position's share but for the truncation. -/
structure PaysShare (candles : List (OhlcvCandle ℝ)) (p : PoolSynthParams ℝ) (positionLiquidity : ℕ)
    (fees : ℝ) : Prop where
  atLeast : feeShare candles p positionLiquidity -
    candles.length * positionLiquidity / (2 ^ 64 * 10 ^ p.decimalsB) ≤ fees
  atMost : fees ≤ feeShare candles p positionLiquidity
  /-- Nothing else of the candles and the parameters enters. -/
  onlyVolumes : fees = truncatedShare (candles.map (·.volumeUsd)) p.feeRate p.poolLiquidity
    p.decimalsB positionLiquidity

section Share

variable (candles : List (OhlcvCandle ℝ)) (p : PoolSynthParams ℝ) (positionLiquidity : ℕ)

/-- Untruncated, the growth pays exactly the share. -/
theorem feeShare_eq (liquid : 0 < p.poolLiquidity) : feeShare candles p positionLiquidity =
    (candles.map fun c => p.dfg c.volumeUsd).sum / twoPow64 * positionLiquidity /
      tokenScale p.decimalsB := by
  have pool : (p.poolLiquidity : ℝ) ≠ 0 := Nat.cast_ne_zero.mpr (Nat.ne_of_gt liquid)
  have scale := (tokenScale_pos p.decimalsB).ne'
  have unit := twoPow64_pos.ne'
  -- the two scalings cancel, candle by candle
  have single : ∀ volumeUsd, volumeUsd * p.feeRate *
      (positionLiquidity / p.poolLiquidity) =
        p.dfg volumeUsd / twoPow64 * positionLiquidity / tokenScale p.decimalsB := by
    intro volumeUsd
    simp only [PoolSynthParams.dfg, F64.tokenScale_real, F64.twoPow64_real]
    field_simp
  unfold feeShare
  induction candles with
  | nil => simp
  | cons c candles ih =>
    rw [List.map_cons, List.sum_cons, ih, single, List.map_cons, List.sum_cons]
    ring

theorem truncatedShare_eq :
    truncatedShare (candles.map (·.volumeUsd)) p.feeRate p.poolLiquidity p.decimalsB
        positionLiquidity =
      (truncatedSum (candles.map fun c => p.dfg c.volumeUsd) : ℝ) / twoPow64 * positionLiquidity /
        tokenScale p.decimalsB := by
  simp only [truncatedShare]
  rw [List.map_map]
  rfl

/-- Truncation takes less than one unit of growth for each candle. -/
theorem paysShare_truncated (volumes : ∀ c ∈ candles, 0 ≤ c.volumeUsd)
    (rate : 0 ≤ p.feeRateBps) (liquid : 0 < p.poolLiquidity) :
    PaysShare candles p positionLiquidity
      (truncatedShare (candles.map (·.volumeUsd)) p.feeRate p.poolLiquidity p.decimalsB
        positionLiquidity) := by
  have grown : ∀ x ∈ candles.map (fun c => p.dfg c.volumeUsd), 0 ≤ x := by
    intro x member
    obtain ⟨c, inside, same⟩ := List.mem_map.mp member
    rw [← same]
    exact PoolSynthParams.dfg_nonneg rate (volumes c inside)
  -- truncation loses less than one unit a candle
  have above := truncatedSum_le _ grown
  have below := sum_le_truncatedSum (candles.map fun c => p.dfg c.volumeUsd)
  rw [List.length_map] at below
  have scale := tokenScale_pos p.decimalsB
  have unit := twoPow64_pos
  refine ⟨?_, ?_, rfl⟩
  · rw [truncatedShare_eq, feeShare_eq _ _ _ liquid, sub_le_iff_le_add]
    calc (candles.map fun c => p.dfg c.volumeUsd).sum / twoPow64 * positionLiquidity /
          tokenScale p.decimalsB
        ≤ ((truncatedSum (candles.map fun c => p.dfg c.volumeUsd) : ℝ) + candles.length) /
            twoPow64 * positionLiquidity / tokenScale p.decimalsB := by gcongr
      _ = (truncatedSum (candles.map fun c => p.dfg c.volumeUsd) : ℝ) / twoPow64 *
            positionLiquidity / tokenScale p.decimalsB +
          candles.length * positionLiquidity / (2 ^ 64 * 10 ^ p.decimalsB) := by
        rw [← twoPow64_eq, ← tokenScale_eq]
        field_simp
  · rw [truncatedShare_eq, feeShare_eq _ _ _ liquid]
    gcongr

end Share

/-- The fees of a replayed backfill, by the readings of token B: they are the running
sums of the truncated growth from the zero of the baseline row. -/
theorem replayed_fees {checks : Bool} {first : OhlcvCandle ℝ} {rest : List (OhlcvCandle ℝ)}
    {p : PoolSynthParams ℝ} {input : DbBacktestInput ℝ} {ticks : List PoolTick}
    {result : BacktestResult ℝ} (volumes : ∀ c ∈ first :: rest, 0 ≤ c.volumeUsd)
    (liquid : 0 < p.poolLiquidity)
    (fits : ((first :: rest).map fun c => ⌊p.dfg c.volumeUsd⌋₊).sum < 2 ^ 128)
    (decimals : input.decimalsB = p.decimalsB)
    (synthesized : synthesizeTicks checks (first :: rest) p = .ok ticks)
    (replayed : runDbBacktest checks input (toRows ticks) = .ok result) :
    result.totalFeesUsd = truncatedShare ((first :: rest).map (·.volumeUsd)) p.feeRate
      p.poolLiquidity p.decimalsB input.positionLiquidity := by
  obtain ⟨baseline, rows, start, made, split⟩ := synthesizeTicks_ok synthesized
  subst split
  -- the baseline row reads zero in both tokens
  obtain ⟨_, _, _, _, zero⟩ := PoolSynthParams.baselineRow_ok start
  have baseA : baseline.feeGrowthGlobalA = 0 := by rw [zero]
  have baseB : baseline.feeGrowthGlobalB = 0 := by rw [zero]
  rw [← Nat.zero_add (List.sum _)] at fits
  have pool := PoolSynthParams.candleRows_pool _ made
  have growth := PoolSynthParams.candleRows_growth _ liquid volumes fits made
  -- token A never grows, so the fees are those of token B alone
  have fees : result.totalFeesUsd =
      (steppedGrowth (2 ^ 128) baseline.feeGrowthGlobalB
        ((toRows rows).map (·.feeGrowthGlobalB)) : ℝ) / twoPow64 * input.positionLiquidity /
          tokenScale input.decimalsB := by
    apply runDbBacktest_fees _ _ replayed
    · intro t member
      obtain ⟨row, inside, same⟩ := List.mem_map.mp member
      rw [← same]
      exact liquid.trans_eq (pool row inside).1.symm
    · intro t member
      obtain ⟨row, inside, same⟩ := List.mem_map.mp member
      rw [← same]
      exact (pool row inside).2.2.trans baseA.symm
  have readings : (toRows rows).map (·.feeGrowthGlobalB) = rows.map (·.feeGrowthGlobalB) :=
    List.map_map
  -- the wrapping steps add up to the sum that was accumulated
  rw [readings, growth, baseB, steppedGrowth_accumulate _ fits, decimals] at fees
  rw [fees, truncatedShare_eq]
  simp only [truncatedSum]
  rw [List.map_map]
  rfl

/-- Replaying a backfill pays the position its share of the fees of every candle. Both
functions return in a build that wraps, given spacings to divide by. -/
theorem backfill_pays_share (candles : List (OhlcvCandle ℝ)) (p : PoolSynthParams ℝ)
    (input : DbBacktestInput ℝ) (listed : candles ≠ [])
    (volumes : ∀ c ∈ candles, 0 ≤ c.volumeUsd) (rate : 0 ≤ p.feeRateBps)
    (liquid : 0 < p.poolLiquidity)
    (fits : (candles.map fun c => ⌊p.dfg c.volumeUsd⌋₊).sum < 2 ^ 128)
    (decimals : input.decimalsB = p.decimalsB) :
    (∀ checks ticks result, synthesizeTicks checks candles p = .ok ticks →
      runDbBacktest checks input (toRows ticks) = .ok result →
      PaysShare candles p input.positionLiquidity result.totalFeesUsd) ∧
    (0 < p.tickSpacing → 0 < input.tickSpacing → ∃ ticks result,
      synthesizeTicks false candles p = .ok ticks ∧
      runDbBacktest false input (toRows ticks) = .ok result) := by
  obtain ⟨first, rest, split⟩ := List.exists_cons_of_ne_nil listed
  subst split
  constructor
  · intro checks ticks result synthesized replayed
    rw [replayed_fees volumes liquid fits decimals synthesized replayed]
    exact paysShare_truncated _ p _ volumes rate liquid
  · intro poolSpacing inputSpacing
    obtain ⟨ticks, synthesized⟩ := synthesizeTicks_unchecked poolSpacing (first :: rest)
    obtain ⟨result, replayed⟩ := runDbBacktest_unchecked inputSpacing
      (synthesizeTicks_listed (List.cons_ne_nil first rest) synthesized)
    exact ⟨ticks, result, synthesized, replayed⟩

/-- A pool that charges one basis point: a volume of 10000 adds one unit of growth. -/
noncomputable def samplePool : PoolSynthParams ℝ := ⟨"pool", 1, 2 ^ 64, 0, 0, 1⟩

noncomputable def sampleInput : DbBacktestInput ℝ :=
  ⟨1, 1, 0.5, 1.5, 1, 1, 2 ^ 64, 0, 0, ⟨false, 0, 0⟩, 0.5, 1.5⟩

/-- Two days, with a price and a volume that triple. -/
noncomputable def sampleCandles : List (OhlcvCandle ℝ) :=
  [⟨1000000, 1, 10000⟩, ⟨1086400, 3, 30000⟩]

theorem backfill_pays_share_sample :
    (∀ checks ticks result, synthesizeTicks checks sampleCandles samplePool = .ok ticks →
      runDbBacktest checks sampleInput (toRows ticks) = .ok result →
      PaysShare sampleCandles samplePool sampleInput.positionLiquidity result.totalFeesUsd) ∧
    (0 < samplePool.tickSpacing → 0 < sampleInput.tickSpacing → ∃ ticks result,
      synthesizeTicks false sampleCandles samplePool = .ok ticks ∧
      runDbBacktest false sampleInput (toRows ticks) = .ok result) := by
  apply backfill_pays_share sampleCandles samplePool sampleInput
  · simp [sampleCandles]
  · simp [sampleCandles]
  · norm_num [samplePool]
  · norm_num [samplePool]
  · norm_num [sampleCandles, samplePool, PoolSynthParams.dfg, PoolSynthParams.feeRate,
      tokenScale_eq, twoPow64_eq]
  · rfl

/-- No candles, no rows, and the replay refuses an empty stream. -/
theorem empty_backfill_refused :
    ¬ ∃ ticks result, synthesizeTicks false [] samplePool = .ok ticks ∧
      runDbBacktest false sampleInput (toRows ticks) = .ok result := by
  intro returned
  obtain ⟨ticks, result, synthesized, replayed⟩ := returned
  cases synthesized
  cases replayed

end TickLiq
