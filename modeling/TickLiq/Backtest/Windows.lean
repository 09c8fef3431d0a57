import TickLiq.Backtest.StoredBackfill
import TickLiq.Machine.Saturating

/-!
# Backfills of two windows

Every call of `synthesize_ticks` counts its growth from zero. Two windows in one table
therefore read as a counter that starts anew. The baseline row of the second window arrives
unless the first window has a candle one second before the second begins.
-/
namespace TickLiq

open Machine (KeyedRows saturate)

/-! ### Growth -/

variable {K : Type} [F64 K]

namespace PoolSynthParams

variable {p : PoolSynthParams K}

/-- The growth of one candle in units of the accumulator. A volume that is no positive number
adds none, and neither does a growth that is not finite. -/
def gain (p : PoolSynthParams K) (c : OhlcvCandle K) : ℕ :=
  if 0 < c.volumeUsd ∧ F64.isFinite (p.dfg c.volumeUsd) ∧ 0 < p.dfg c.volumeUsd then
    if (2 ^ 128 - 1 : ℕ) ≤ p.dfg c.volumeUsd then 2 ^ 128 - 1
    else min (F64.toU128 (p.dfg c.volumeUsd)) (2 ^ 128 - 1)
  else 0

theorem gain_idle {c : OhlcvCandle K} (idle : ¬0 < c.volumeUsd) : p.gain c = 0 :=
  if_neg fun traded => idle traded.1

theorem growAfter_gain {feeGrowthB : ℕ} {c : OhlcvCandle K} (liquid : 0 < p.poolLiquidity)
    (within : feeGrowthB ≤ 2 ^ 128 - 1) :
    p.growAfter feeGrowthB c = min (feeGrowthB + p.gain c) (2 ^ 128 - 1) := by
  unfold growAfter gain
  dsimp only
  by_cases volume : 0 < c.volumeUsd
  · rw [if_pos (show 0 < p.poolLiquidity ∧ 0 < c.volumeUsd from ⟨liquid, volume⟩)]
    by_cases grows : F64.isFinite (p.dfg c.volumeUsd) ∧ 0 < p.dfg c.volumeUsd
    · rw [if_pos grows, if_pos (show 0 < c.volumeUsd ∧ _ ∧ _ from ⟨volume, grows⟩)]
      by_cases large : ((2 ^ 128 - 1 : ℕ) : K) ≤ p.dfg c.volumeUsd
      · rw [if_pos large, if_pos large]
      · -- the sum saturates where the gain is cut off
        rw [if_neg large, if_neg large]
        omega
    · rw [if_neg grows, if_neg (show ¬(0 < c.volumeUsd ∧ _ ∧ _) from fun all => grows all.2),
        Nat.add_zero, Nat.min_eq_left within]
  · rw [if_neg (show ¬(0 < p.poolLiquidity ∧ 0 < c.volumeUsd) from fun traded => volume traded.2),
      if_neg (show ¬(0 < c.volumeUsd ∧ _ ∧ _) from fun all => volume all.1), Nat.add_zero,
      Nat.min_eq_left within]

/-- The growth column of the candle rows, saturation included. -/
theorem candleRows_readings {checks : Bool} {feeGrowthB : ℕ} {rows : List PoolTick}
    (candles : List (OhlcvCandle K)) (liquid : 0 < p.poolLiquidity)
    (within : feeGrowthB ≤ 2 ^ 128 - 1)
    (returned : p.candleRows checks feeGrowthB candles = .ok rows) :
    rows.map (·.feeGrowthGlobalB) = saturate (2 ^ 128 - 1) feeGrowthB (candles.map p.gain) := by
  induction candles generalizing feeGrowthB rows with
  | nil =>
    cases returned
    rfl
  | cons c candles ih =>
    obtain ⟨row, rest, first, others, split⟩ := candleRows_ok returned
    obtain ⟨_, _, made⟩ := candleRow_ok first
    subst split
    have grown : row.feeGrowthGlobalB = min (feeGrowthB + p.gain c) (2 ^ 128 - 1) := by
      rw [made]
      exact growAfter_gain liquid within
    rw [grown] at others
    rw [List.map_cons, List.map_cons, saturate, grown, ih (Nat.min_le_right ..) others]

end PoolSynthParams

/-- Rows of a pool that never runs dry, without growth of token A. -/
def PoolRows (rows : List PoolTickRow) : Prop :=
  ∀ t ∈ rows, 0 < t.liquidity ∧ t.sqrtPrice < 2 ^ 128 ∧ t.feeGrowthGlobalA = 0

/-! ### One window -/

section Window

variable {checks : Bool} {candles : List (OhlcvCandle K)} {p : PoolSynthParams K}
  {ticks : List PoolTick}

theorem synthesized_readings (liquid : 0 < p.poolLiquidity) (listed : candles ≠ [])
    (synthesized : synthesizeTicks checks candles p = .ok ticks) :
    PoolRows (toRows ticks) ∧ (toRows ticks).map (·.feeGrowthGlobalB) =
      0 :: saturate (2 ^ 128 - 1) 0 (candles.map p.gain) := by
  obtain ⟨first, rest, split⟩ := List.exists_cons_of_ne_nil listed
  rw [split] at synthesized ⊢
  obtain ⟨baseline, rows, start, others, made⟩ := synthesizeTicks_ok synthesized
  obtain ⟨_, _, _, _, zero⟩ := PoolSynthParams.baselineRow_ok start
  subst made zero
  have pool := PoolSynthParams.candleRows_pool _ others
  constructor
  · intro t member
    rcases List.mem_cons.mp member with here | there
    · rw [here]
      exact ⟨liquid, F64.priceToSqrtQ64_lt _, rfl⟩
    · obtain ⟨row, inside, same⟩ := List.mem_map.mp there
      rw [← same]
      exact ⟨liquid.trans_eq (pool row inside).1.symm, (pool row inside).2⟩
  · have readings := PoolSynthParams.candleRows_readings _ liquid (Nat.zero_le _) others
    rw [toRows, List.map_map, List.map_cons, ← readings]
    rfl

variable (valid : ∀ c ∈ candles, ValidTimestamp c.timestamp)
  (synthesized : synthesizeTicks checks candles p = .ok ticks)
include valid synthesized

/-- Every row stands at the time of a candle, at the candle's slot or, for the first, below it. -/
theorem synthesized_stands : ∀ tick ∈ ticks, tick.poolAddress = p.poolAddress ∧
    ∃ c ∈ candles, tick.observedAt = c.timestamp * 1000000 ∧
      (tick.slot = c.timestamp ∨ tick.slot = c.timestamp - 1 ∧ candles.head? = some c) := by
  intro tick member
  have place : tick.place ∈ ticks.map PoolTick.place := List.mem_map_of_mem member
  rw [synthesizeTicks_places valid synthesized, List.mem_append] at place
  rcases place with baseline | candle
  · obtain ⟨c, first, same⟩ := List.mem_map.mp baseline
    have head := Option.mem_toList.mp first
    obtain ⟨time, same⟩ := Prod.mk.inj same
    obtain ⟨pool, slot⟩ := Prod.mk.inj same
    exact ⟨pool.symm, c, List.mem_of_mem_head? head, time.symm, Or.inr ⟨slot.symm, head⟩⟩
  · obtain ⟨c, listed, same⟩ := List.mem_map.mp candle
    obtain ⟨time, same⟩ := Prod.mk.inj same
    obtain ⟨pool, slot⟩ := Prod.mk.inj same
    exact ⟨pool.symm, c, listed, time.symm, Or.inl slot.symm⟩

/-- Every candle has a row at its slot. -/
theorem synthesized_slots : ∀ c ∈ candles, ∃ tick ∈ ticks,
    tick.poolAddress = p.poolAddress ∧ tick.slot = c.timestamp := by
  intro c member
  have place : (c.timestamp * 1000000, p.poolAddress, c.timestamp) ∈ ticks.map PoolTick.place := by
    rw [synthesizeTicks_places valid synthesized, List.mem_append]
    exact Or.inr (List.mem_map_of_mem (f := fun c : OhlcvCandle K =>
      (c.timestamp * 1000000, p.poolAddress, c.timestamp)) member)
  obtain ⟨tick, inside, same⟩ := List.mem_map.mp place
  obtain ⟨pool, slot⟩ := Prod.mk.inj (Prod.mk.inj same).2
  exact ⟨tick, inside, pool, slot⟩

end Window

/-! ### Two windows in one table -/

theorem rows_listed {checks : Bool} {candles : List (OhlcvCandle K)} {p : PoolSynthParams K}
    {baseline : PoolTick} {rows : List PoolTick}
    (synthesized : synthesizeTicks checks candles p = .ok (baseline :: rows)) : candles ≠ [] := by
  intro empty
  rw [empty] at synthesized
  cases synthesized

/-- A candle of the first window stands where the second window's baseline row wants to. -/
def Adjacent (first second : List (OhlcvCandle K)) : Prop :=
  ∃ c ∈ first, ∃ next ∈ second.head?, c.timestamp + 1 = next.timestamp

section Windows

variable {checks : Bool} {first second : List (OhlcvCandle K)} {p : PoolSynthParams K}
  {part1 : List PoolTick} {baseline : PoolTick} {rows : List PoolTick}
  (ascending : Ascending (first ++ second))
  (valid : ∀ c ∈ first ++ second, ValidTimestamp c.timestamp)
  (synthesized2 : synthesizeTicks checks second p = .ok (baseline :: rows))
include ascending valid synthesized2

/-- The slots of the second window start one below its first candle. -/
theorem second_slots {next : OhlcvCandle K} (head : second.head? = some next) :
    baseline.slot = next.timestamp - 1 ∧ ∀ tick ∈ rows, next.timestamp ≤ tick.slot := by
  have validSecond : ∀ c ∈ second, ValidTimestamp c.timestamp :=
    fun c member => valid c (List.mem_append_right _ member)
  have after := (List.pairwise_append.mp ascending).2.1
  have places := synthesizeTicks_places validSecond synthesized2
  rw [head] at places
  have slot : baseline.slot = next.timestamp - 1 :=
    congrArg (fun place => place.2.2) (List.cons.inj places).1
  refine ⟨slot, ?_⟩
  intro tick member
  have later := (List.rel_of_pairwise_cons
    (synthesizeTicks_chronological validSecond synthesized2 after) member).2
  omega

variable (synthesized1 : synthesizeTicks checks first p = .ok part1)
include synthesized1

/-- Rows of the second window with slots beyond those of the first carry its order on. -/
theorem chronological_windows {late : List PoolTick} (sub : late.Sublist (baseline :: rows))
    (beyond : ∀ c ∈ first, ∀ tick ∈ late, c.timestamp < tick.slot) :
    Chronological (part1 ++ late) := by
  obtain ⟨before, after, apart⟩ := List.pairwise_append.mp ascending
  have validFirst : ∀ c ∈ first, ValidTimestamp c.timestamp :=
    fun c member => valid c (List.mem_append_left _ member)
  have validSecond : ∀ c ∈ second, ValidTimestamp c.timestamp :=
    fun c member => valid c (List.mem_append_right _ member)
  have second := synthesizeTicks_chronological validSecond synthesized2 after
  refine List.pairwise_append.mpr
    ⟨synthesizeTicks_chronological validFirst synthesized1 before, second.sublist sub, ?_⟩
  intro a early b member
  obtain ⟨_, c, inside, time, slot⟩ := synthesized_stands validFirst synthesized1 a early
  obtain ⟨_, d, outside, time', _⟩ :=
    synthesized_stands validSecond synthesized2 b (sub.subset member)
  have order := apart c inside d outside
  have past := beyond c inside b member
  constructor
  · rw [time, time']
    omega
  · rcases slot with exact | below
    · omega
    · omega

omit ascending in
theorem windows_within {fromDate toDate : ℤ} (inside : InDates fromDate toDate (first ++ second)) :
    Within p.poolAddress fromDate toDate (part1 ++ baseline :: rows) := by
  intro tick either
  rcases List.mem_append.mp either with early | late
  · exact synthesizeTicks_within (fun c member => valid c (List.mem_append_left _ member))
      synthesized1 (fun c member => inside c (List.mem_append_left _ member)) tick early
  · exact synthesizeTicks_within (fun c member => valid c (List.mem_append_right _ member))
      synthesized2 (fun c member => inside c (List.mem_append_right _ member)) tick late

/-- Next to a candle of the first window, the second baseline row finds its key taken. -/
theorem adjacent_taken {stored : List StoredTick} (held : List.Forall₂ StoredTick.Stores stored part1)
    (adjacent : Adjacent first second) : (baseline.poolAddress, baseline.slot) ∈
      stored.map fun row => (row.poolAddress, row.slot) := by
  obtain ⟨c, member, next, head, meets⟩ := adjacent
  obtain ⟨tick, among, pool, slot⟩ := synthesized_slots
    (fun c member => valid c (List.mem_append_left _ member)) synthesized1 c member
  obtain ⟨baseSlot, _⟩ := second_slots ascending valid synthesized2 head
  obtain ⟨basePool, _⟩ := synthesized_stands
    (fun c member => valid c (List.mem_append_right _ member)) synthesized2 baseline
    (List.mem_cons_self ..)
  have place : tick.place ∈ part1.map PoolTick.place := List.mem_map_of_mem among
  rw [← stored_places held] at place
  obtain ⟨row, kept, same⟩ := List.mem_map.mp place
  refine List.mem_map.mpr ⟨row, kept, ?_⟩
  rw [(Prod.mk.inj same).2, pool, basePool, baseSlot, slot]
  congr 1
  omega

variable {fromDate toDate : ℤ} (inside : InDates fromDate toDate (first ++ second))
  (queried : Queried p.poolAddress fromDate toDate) (liquidity : p.poolLiquidity < 2 ^ 128)
include inside queried liquidity

omit ascending in
theorem windows_storable : (∀ tick ∈ part1, tick.Storable) ∧
    ∀ tick ∈ baseline :: rows, tick.Storable := by
  have within := windows_within valid synthesized2 synthesized1 inside
  constructor
  · intro tick member
    obtain ⟨pool, least, most⟩ := within tick (List.mem_append_left _ member)
    exact queried.storable (synthesizeTicks_u128 synthesized1 liquidity tick member) pool least most
  · intro tick member
    obtain ⟨pool, least, most⟩ := within tick (List.mem_append_right _ member)
    exact queried.storable (synthesizeTicks_u128 synthesized2 liquidity tick member) pool least most

theorem first_written : ∃ early stored,
    writePoolTicks KeyedRows.empty part1 = .ok (early, part1.length) ∧
    early.rows = [] ++ stored ∧ List.Forall₂ StoredTick.Stores stored part1 := by
  have validFirst : ∀ c ∈ first, ValidTimestamp c.timestamp :=
    fun c member => valid c (List.mem_append_left _ member)
  have within := windows_within valid synthesized2 synthesized1 inside
  exact written_after (show (KeyedRows.empty : PoolTicks).rows = [] ++ [] from rfl)
    (fun row member => nomatch member) List.Forall₂.nil
    (windows_storable valid synthesized2 synthesized1 inside queried liquidity).1
    (synthesizeTicks_chronological validFirst synthesized1 (List.pairwise_append.mp ascending).1)
    fun tick member => (within tick (List.mem_append_left _ member)).1

/-- Of two adjacent windows the second baseline row does not arrive. -/
theorem adjacent_read (adjacent : Adjacent first second) : ∃ early late,
    writePoolTicks KeyedRows.empty part1 = .ok (early, part1.length) ∧
    writePoolTicks early (baseline :: rows) = .ok (late, (baseline :: rows).length) ∧
    readTicks late p.poolAddress fromDate toDate = .ok (toRows (part1 ++ rows)) := by
  have bounded := synthesizeTicks_u128 synthesized2 liquidity
  have within := windows_within valid synthesized2 synthesized1 inside
  obtain ⟨early, stored, wrote, split, held⟩ :=
    first_written ascending valid synthesized2 synthesized1 inside queried liquidity
  have taken := adjacent_taken ascending valid synthesized2 synthesized1 held adjacent
  obtain ⟨_, _, next, head, _⟩ := adjacent
  -- without its baseline row the second window is later than the first
  have chronological := chronological_windows ascending valid synthesized2 synthesized1
    (List.sublist_cons_self baseline rows) (by
      intro d inFirst tick inRows
      have order := (List.pairwise_append.mp ascending).2.2 d inFirst next
        (List.mem_of_mem_head? head)
      have later := (second_slots ascending valid synthesized2 head).2 tick inRows
      omega)
  obtain ⟨late, wrote', read⟩ := written_after_reads_back split (fun row member => nomatch member)
    held (fun tick inRows => bounded tick (List.mem_cons_of_mem baseline inRows)) chronological
    queried (by
      intro tick either
      apply within tick
      rcases List.mem_append.mp either with inFirst | inRows
      · exact List.mem_append_left _ inFirst
      · exact List.mem_append_right _ (List.mem_cons_of_mem baseline inRows))
  refine ⟨early, late, wrote, ?_, read⟩
  have storable := windows_storable valid synthesized2 synthesized1 inside queried liquidity
  -- the baseline row meets the slot of the first window's last row and is dropped
  apply writePoolTicks_taken (storable.2 baseline (List.mem_cons_self ..)) _ wrote'
  rw [split]
  exact taken

/-- Of two windows apart every row arrives. -/
theorem apart_read (apart : ¬ Adjacent first second) : ∃ early late,
    writePoolTicks KeyedRows.empty part1 = .ok (early, part1.length) ∧
    writePoolTicks early (baseline :: rows) = .ok (late, (baseline :: rows).length) ∧
    readTicks late p.poolAddress fromDate toDate = .ok (toRows (part1 ++ baseline :: rows)) := by
  have bounded := synthesizeTicks_u128 synthesized2 liquidity
  obtain ⟨next, rest, heads⟩ := List.exists_cons_of_ne_nil (rows_listed synthesized2)
  have head : second.head? = some next := by rw [heads]; rfl
  obtain ⟨baseSlot, slots⟩ := second_slots ascending valid synthesized2 head
  have chronological := chronological_windows ascending valid synthesized2 synthesized1
    (List.Sublist.refl (baseline :: rows)) (by
      intro d inFirst tick inRows
      have order := (List.pairwise_append.mp ascending).2.2 d inFirst next
        (List.mem_of_mem_head? head)
      -- nobody has taken the slot one second before the second window
      have distant : d.timestamp + 1 ≠ next.timestamp :=
        fun meets => apart ⟨d, inFirst, next, head, meets⟩
      rcases List.mem_cons.mp inRows with here | there
      · rw [here, baseSlot]
        omega
      · have later := slots tick there
        omega)
  obtain ⟨early, stored, wrote, split, held⟩ :=
    first_written ascending valid synthesized2 synthesized1 inside queried liquidity
  obtain ⟨late, wrote', read⟩ := written_after_reads_back split (fun row member => nomatch member)
    held bounded chronological queried (windows_within valid synthesized2 synthesized1 inside)
  exact ⟨early, late, wrote, wrote', read⟩

end Windows

/-! ### The growth column -/

section Growth

variable {checks : Bool} {first second : List (OhlcvCandle K)} {p : PoolSynthParams K}
  (liquid : 0 < p.poolLiquidity)
include liquid

variable {part1 : List PoolTick} {baseline : PoolTick} {rows : List PoolTick} (listed : first ≠ [])
  (synthesized1 : synthesizeTicks checks first p = .ok part1)
  (synthesized2 : synthesizeTicks checks second p = .ok (baseline :: rows))
include listed synthesized1 synthesized2

theorem windows_pool : PoolRows (toRows (part1 ++ baseline :: rows)) := by
  have listed2 := rows_listed synthesized2
  have pool1 := (synthesized_readings liquid listed synthesized1).1
  have pool2 := (synthesized_readings liquid listed2 synthesized2).1
  intro t member
  rw [toRows, List.map_append] at member
  rcases List.mem_append.mp member with left | right
  · exact pool1 t left
  · exact pool2 t right

/-- With its baseline row the second window starts anew at zero. -/
theorem kept_column : (toRows (part1 ++ baseline :: rows)).map (·.feeGrowthGlobalB) =
    0 :: (saturate (2 ^ 128 - 1) 0 (first.map p.gain) ++
      0 :: saturate (2 ^ 128 - 1) 0 (second.map p.gain)) := by
  have listed2 := rows_listed synthesized2
  have column1 := (synthesized_readings liquid listed synthesized1).2
  have column2 := (synthesized_readings liquid listed2 synthesized2).2
  rw [← column2, ← List.cons_append, ← column1, ← List.map_append, toRows, toRows, toRows,
    List.map_append]

/-- Without it, at the growth of its first candle. -/
theorem dropped_column : (toRows (part1 ++ rows)).map (·.feeGrowthGlobalB) =
    0 :: (saturate (2 ^ 128 - 1) 0 (first.map p.gain) ++
      saturate (2 ^ 128 - 1) 0 (second.map p.gain)) := by
  have column1 := (synthesized_readings liquid listed synthesized1).2
  have column2 := (synthesized_readings liquid (rows_listed synthesized2) synthesized2).2
  have tail : (toRows rows).map (·.feeGrowthGlobalB) =
      saturate (2 ^ 128 - 1) 0 (second.map p.gain) := (List.cons.inj column2).2
  rw [← tail, ← List.cons_append, ← column1, ← List.map_append, toRows, toRows, toRows,
    List.map_append]

end Growth

end TickLiq
