import TickLiq.Backtest.RoundTrip
import TickLiq.Storage.PoolTicks

/-!
# A backfill in the database

The slots of a backfill rise with the candles and the baseline row sits one below
the first, at the same time. So no row meets a taken key, and reading by time and
slot gives the rows as they were synthesised.
-/
namespace TickLiq

open Machine (InRange subChecked)

/-- The seconds `DateTime::from_timestamp` accepts. -/
def ValidTimestamp (secs : ℤ) : Prop := -8334601228800 ≤ secs ∧ secs ≤ 8210266876799

theorem fromTimestamp_valid {secs : ℤ} (valid : ValidTimestamp secs) :
    fromTimestamp secs = secs * 1000000 := if_pos valid

/-- No build wraps or panics one second before a valid time. -/
theorem slot_before_valid {secs : ℤ} (checks : Bool) (valid : ValidTimestamp secs) :
    subChecked checks 64 secs 1 = .ok (secs - 1) := by
  obtain ⟨lower, upper⟩ := valid
  have inside : InRange 64 (secs - 1) := by
    simp only [InRange]
    omega
  exact if_pos inside

variable {K : Type} [F64 K]

namespace PoolSynthParams

variable {p : PoolSynthParams K}

theorem growAfter_lt {feeGrowthB : ℕ} (c : OhlcvCandle K) (bounded : feeGrowthB < 2 ^ 128) :
    p.growAfter feeGrowthB c < 2 ^ 128 := by
  unfold growAfter
  split
  · dsimp only
    split
    · exact Nat.lt_of_le_of_lt (Nat.min_le_right ..) (by decide)
    · exact bounded
  · exact bounded

theorem baselineRow_slot {checks : Bool} {first : OhlcvCandle K} {row : PoolTick}
    (valid : ValidTimestamp first.timestamp) (returned : p.baselineRow checks first = .ok row) :
    row.slot = first.timestamp - 1 := by
  obtain ⟨slot, _, before, _, made⟩ := baselineRow_ok returned
  rw [slot_before_valid checks valid] at before
  rw [made, ← Except.ok.inj before]

/-- A candle's row stands at the candle's time, which is also its slot. -/
theorem candleRows_places {checks : Bool} {feeGrowthB : ℕ} {rows : List PoolTick}
    (candles : List (OhlcvCandle K)) (returned : p.candleRows checks feeGrowthB candles = .ok rows) :
    rows.map PoolTick.place =
      candles.map fun c => (fromTimestamp c.timestamp, p.poolAddress, c.timestamp) := by
  induction candles generalizing feeGrowthB rows with
  | nil =>
    cases returned
    rfl
  | cons c candles ih =>
    obtain ⟨row, rest, first, others, split⟩ := candleRows_ok returned
    obtain ⟨_, _, made⟩ := candleRow_ok first
    subst split
    rw [List.map_cons, List.map_cons, ih others, made]
    rfl

theorem candleRows_u128 {checks : Bool} {feeGrowthB : ℕ} {rows : List PoolTick}
    (candles : List (OhlcvCandle K)) (liquidity : p.poolLiquidity < 2 ^ 128)
    (bounded : feeGrowthB < 2 ^ 128)
    (returned : p.candleRows checks feeGrowthB candles = .ok rows) :
    ∀ row ∈ rows, row.U128 := by
  induction candles generalizing feeGrowthB rows with
  | nil =>
    cases returned
    intro row member
    cases member
  | cons c candles ih =>
    obtain ⟨head, rest, first, others, split⟩ := candleRows_ok returned
    obtain ⟨_, _, made⟩ := candleRow_ok first
    subst split
    have grown := growAfter_lt (p := p) c bounded
    intro row member
    rcases List.mem_cons.mp member with here | there
    · rw [here, made]
      exact ⟨F64.priceToSqrtQ64_lt _, liquidity, Nat.two_pow_pos 128, grown⟩
    · apply ih _ others row there
      rw [made]
      exact grown

end PoolSynthParams

/-- In time order, without two candles of one second. -/
def Ascending (candles : List (OhlcvCandle K)) : Prop :=
  candles.Pairwise fun a b => a.timestamp < b.timestamp

/-- The candles lie in `[fromDate, toDate)`. -/
def InDates (fromDate toDate : ℤ) (candles : List (OhlcvCandle K)) : Prop :=
  ∀ c ∈ candles, fromDate * 86400 ≤ c.timestamp ∧ c.timestamp < toDate * 86400

section Synthesized

variable {checks : Bool} {candles : List (OhlcvCandle K)} {p : PoolSynthParams K}
  {ticks : List PoolTick} (valid : ∀ c ∈ candles, ValidTimestamp c.timestamp)
  (synthesized : synthesizeTicks checks candles p = .ok ticks)

include valid synthesized

/-- The baseline row shares the first candle's time and has the slot below it. -/
theorem synthesizeTicks_places : ticks.map PoolTick.place =
    (candles.head?.toList.map fun c => (c.timestamp * 1000000, p.poolAddress, c.timestamp - 1)) ++
      candles.map fun c => (c.timestamp * 1000000, p.poolAddress, c.timestamp) := by
  cases candles with
  | nil =>
    cases synthesized
    rfl
  | cons first rest =>
    obtain ⟨baseline, rows, made, others, split⟩ := synthesizeTicks_ok synthesized
    have firstValid := valid first (List.mem_cons_self ..)
    have slot := PoolSynthParams.baselineRow_slot firstValid made
    obtain ⟨_, _, _, _, row⟩ := PoolSynthParams.baselineRow_ok made
    have times : ((first :: rest).map fun c =>
        (fromTimestamp c.timestamp, p.poolAddress, c.timestamp)) =
        (first :: rest).map fun c => (c.timestamp * 1000000, p.poolAddress, c.timestamp) := by
      apply List.map_congr_left
      intro c member
      rw [fromTimestamp_valid (valid c member)]
    rw [split, List.map_cons, PoolSynthParams.candleRows_places _ others, times, PoolTick.place,
      slot, row, fromTimestamp_valid firstValid]
    rfl

theorem synthesizeTicks_chronological (ascending : Ascending candles) : Chronological ticks := by
  have places : (ticks.map PoolTick.place).Pairwise fun a b => a.1 ≤ b.1 ∧ a.2.2 < b.2.2 := by
    rw [synthesizeTicks_places valid synthesized]
    have rising : (candles.map fun c => (c.timestamp * 1000000, p.poolAddress, c.timestamp)).Pairwise
        fun a b => a.1 ≤ b.1 ∧ a.2.2 < b.2.2 := by
      apply List.pairwise_map.mpr
      apply ascending.imp
      intro a b before
      constructor <;> dsimp only <;> omega
    cases candles with
    | nil => exact rising
    | cons first rest =>
      refine List.pairwise_cons.mpr ⟨?_, rising⟩
      intro place member
      obtain ⟨c, inside, same⟩ := List.mem_map.mp member
      -- nothing comes before the first candle
      have least : first.timestamp ≤ c.timestamp := by
        rcases List.mem_cons.mp inside with here | there
        · rw [here]
        · exact (List.rel_of_pairwise_cons ascending there).le
      rw [← same]
      constructor <;> dsimp only <;> omega
  exact List.pairwise_map.mp places

theorem synthesizeTicks_within {fromDate toDate : ℤ} (inside : InDates fromDate toDate candles) :
    Within p.poolAddress fromDate toDate ticks := by
  intro tick member
  have place : tick.place ∈ ticks.map PoolTick.place := List.mem_map_of_mem member
  rw [synthesizeTicks_places valid synthesized, List.mem_append] at place
  have stands : ∃ c ∈ candles, tick.poolAddress = p.poolAddress ∧
      tick.observedAt = c.timestamp * 1000000 := by
    rcases place with baseline | candle
    · obtain ⟨c, first, same⟩ := List.mem_map.mp baseline
      have listed := List.mem_of_mem_head? (Option.mem_toList.mp first)
      exact ⟨c, listed, (congrArg (·.2.1) same).symm, (congrArg (·.1) same).symm⟩
    · obtain ⟨c, listed, same⟩ := List.mem_map.mp candle
      exact ⟨c, listed, (congrArg (·.2.1) same).symm, (congrArg (·.1) same).symm⟩
  obtain ⟨c, listed, pool, time⟩ := stands
  have window := inside c listed
  refine ⟨pool, ?_, ?_⟩ <;> rw [time] <;> unfold midnight <;> omega

omit valid in
theorem synthesizeTicks_u128 (liquidity : p.poolLiquidity < 2 ^ 128) :
    ∀ tick ∈ ticks, tick.U128 := by
  cases candles with
  | nil =>
    cases synthesized
    intro tick member
    cases member
  | cons first rest =>
    obtain ⟨baseline, rows, made, others, split⟩ := synthesizeTicks_ok synthesized
    subst split
    intro tick member
    rcases List.mem_cons.mp member with here | there
    · obtain ⟨_, _, _, _, row⟩ := PoolSynthParams.baselineRow_ok made
      rw [here, row]
      exact ⟨F64.priceToSqrtQ64_lt _, liquidity, Nat.two_pow_pos 128, Nat.two_pow_pos 128⟩
    · exact PoolSynthParams.candleRows_u128 _ liquidity (Nat.two_pow_pos 128) others tick there

end Synthesized

omit [F64 K] in
/-- Dates that can be asked for hold no candle that `chrono` cannot. -/
theorem InDates.valid {poolAddress : String} {fromDate toDate : ℤ} {candles : List (OhlcvCandle K)}
    (inside : InDates fromDate toDate candles) (queried : Queried poolAddress fromDate toDate) :
    ∀ c ∈ candles, ValidTimestamp c.timestamp := by
  obtain ⟨_, start, _, ends⟩ := queried
  intro c member
  have window := inside c member
  unfold ValidTimestamp
  omega

/-- The database path and the research path replay the same rows: a backfill written for a
pool without rows reads back as `to_rows` of what was synthesised, over dates that the
database has and for an address that it can store. -/
theorem stored_backfill_is_research (candles : List (OhlcvCandle K)) (p : PoolSynthParams K)
    (fromDate toDate : ℤ) (table : PoolTicks) (ascending : Ascending candles)
    (inside : InDates fromDate toDate candles)
    (queried : Queried p.poolAddress fromDate toDate) (liquidity : p.poolLiquidity < 2 ^ 128)
    (absent : ∀ row ∈ table.rows, row.poolAddress ≠ p.poolAddress) :
    (∀ checks ticks, synthesizeTicks checks candles p = .ok ticks →
      ∃ written, writePoolTicks table ticks = .ok (written, ticks.length) ∧
        readTicks written p.poolAddress fromDate toDate = .ok (toRows ticks)) ∧
    (0 < p.tickSpacing → ∃ ticks, synthesizeTicks false candles p = .ok ticks) := by
  have valid := inside.valid queried
  constructor
  · intro checks ticks synthesized
    exact written_reads_back absent (synthesizeTicks_u128 synthesized liquidity)
      (synthesizeTicks_chronological valid synthesized ascending) queried
      (synthesizeTicks_within valid synthesized inside)
  · intro positive
    exact synthesizeTicks_unchecked positive candles

/-- A table that holds a row of another pool, at a slot the sample needs too. -/
def foreignTable : PoolTicks :=
  let zero : Numeric := ⟨0, by decide⟩
  ⟨[⟨3600000000, "other", 3600, 0, zero, zero, zero, zero⟩], List.nodup_singleton _⟩

/-- Two candles, on the first and on the second day. -/
noncomputable def twoDays : List (OhlcvCandle ℝ) := [⟨3600, 1, (10000 : ℕ)⟩, ⟨90000, 1, 0⟩]

theorem stored_backfill_is_research_sample : ∃ ticks written,
    synthesizeTicks false twoDays samplePool = .ok ticks ∧
      writePoolTicks foreignTable ticks = .ok (written, ticks.length) ∧
      readTicks written "pool" 0 2 = .ok (toRows ticks) := by
  have result := stored_backfill_is_research twoDays samplePool 0 2 foreignTable
    (by simp [Ascending, twoDays]) (by simp [InDates, twoDays])
    ⟨by decide, by decide, by decide, by decide⟩ (by decide) (by simp [foreignTable, samplePool])
  obtain ⟨replays, synthesizes⟩ := result
  obtain ⟨ticks, synthesized⟩ := synthesizes (by decide)
  obtain ⟨written, wrote, read⟩ := replays false ticks synthesized
  exact ⟨ticks, written, synthesized, wrote, read⟩

/-- The last second before Julian day zero. -/
noncomputable def earlyCandle : OhlcvCandle ℝ := ⟨-210866803201, 1, 0⟩

/-- `chrono` knows its time, and the insert fails. -/
theorem early_candle_refused : ValidTimestamp earlyCandle.timestamp ∧
    InDates (-2440589) (-2440588) [earlyCandle] ∧
    ∃ ticks, synthesizeTicks false [earlyCandle] samplePool = .ok ticks ∧
      writePoolTicks Machine.KeyedRows.empty ticks = .error "batch write_pool_tick failed" := by
  refine ⟨by simp [ValidTimestamp, earlyCandle], by simp [InDates, earlyCandle], ?_⟩
  obtain ⟨ticks, synthesized⟩ := synthesizeTicks_unchecked
    (show 0 < samplePool.tickSpacing by decide) [earlyCandle]
  obtain ⟨baseline, rows, made, _, split⟩ := synthesizeTicks_ok synthesized
  obtain ⟨_, _, _, _, row⟩ := PoolSynthParams.baselineRow_ok made
  refine ⟨ticks, synthesized, ?_⟩
  rw [split, row]
  rfl

end TickLiq
