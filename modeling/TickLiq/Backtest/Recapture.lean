import TickLiq.Backtest.SwitchedOff

/-!
# What a re-centred range contains

A rebalance puts the range around the price of the row, then rounds both bounds down to
the spacing. The upper bound can lose up to a whole spacing and come to lie below the
tick of the row; the lower bound can only end above it through its floor of `1e-9`.
Logarithms, products and the constants of the code are exact here.
-/
namespace TickLiq

open Machine (InRange)

/-- A row of a live pool: its tick is the one that its price is on. -/
structure PoolTickRow.Recorded (t : PoolTickRow) : Prop where
  positive : 0 < t.sqrtPrice
  fits : t.sqrtPrice < 2 ^ 128
  tick : t.tickCurrent = ⌊Real.log (sqrtQ64ToPrice t.sqrtPrice) / Real.log 1.0001⌋

/-- Factors around one, a spacing above zero, and the ranges of the machine types. The upper
price is finite, in UI and in raw terms. -/
structure DbBacktestInput.Recentrable (input : DbBacktestInput ℝ) (t : PoolTickRow) : Prop where
  spacing : 0 < input.tickSpacing
  fits : InRange 32 input.tickSpacing
  decimalsA : input.decimalsA < 2 ^ 8
  decimalsB : input.decimalsB < 2 ^ 8
  lowerPos : 0 < input.rangeFactorLower
  lowerBelow : input.rangeFactorLower < 1
  upperAbove : 1 < input.rangeFactorUpper
  upperFinite : input.uiPrice t * input.rangeFactorUpper < (2 ^ 1024 : ℕ)
  rawFinite : sqrtQ64ToPrice t.sqrtPrice * input.rangeFactorUpper < (2 ^ 1024 : ℕ)

/-- The upper price reaches the first multiple of the spacing from the tick on, and the floor
of the lower price stays below the first one beyond the tick. -/
structure DbBacktestInput.Reaches (input : DbBacktestInput ℝ) (t : PoolTickRow) : Prop where
  upper : tickPrice (gridAbove t.tickCurrent input.tickSpacing) ≤
    sqrtQ64ToPrice t.sqrtPrice * input.rangeFactorUpper
  floor : 1e-9 / input.uiFactor < tickPrice (gridNext t.tickCurrent input.tickSpacing)

/-- The range contains the tick of the row, and with the edge test off a further row at that
price and tick is replayed without a rebalance. -/
structure Recaptured (checks : Bool) (input : DbBacktestInput ℝ) (t : PoolTickRow) (next : Replay ℝ) :
    Prop where
  inside : next.tickLower ≤ t.tickCurrent ∧ t.tickCurrent ≤ next.tickUpper
  settled : input.rebalanceCfg.nearEdgeTicks < 0 → ∀ i following,
    following.sqrtPrice = t.sqrtPrice → following.tickCurrent = t.tickCurrent →
    ∃ after, next.step input checks i following = .ok after ∧
      after.totalRebalances = next.totalRebalances

section Recentred

variable {checks : Bool} {input : DbBacktestInput ℝ} {t : PoolTickRow}

/-! ### The range in raw prices -/

theorem rawPrice_bounds (recorded : t.Recorded) :
    ((2 ^ 128 : ℕ) : ℝ)⁻¹ ≤ sqrtQ64ToPrice t.sqrtPrice ∧
      sqrtQ64ToPrice t.sqrtPrice < (2 ^ 128 : ℕ) := by
  have unit := twoPow64_pos
  have least : 1 / twoPow64 ≤ t.sqrtPrice / twoPow64 :=
    div_le_div_of_nonneg_right (by exact_mod_cast recorded.positive) unit.le
  have most : t.sqrtPrice / twoPow64 < twoPow64 := by
    rw [div_lt_iff₀ unit, twoPow64_eq, ← pow_add]
    exact_mod_cast recorded.fits
  rw [sqrtQ64ToPrice_eq]
  constructor
  · calc ((2 ^ 128 : ℕ) : ℝ)⁻¹ = 1 / twoPow64 * (1 / twoPow64) := by
          rw [twoPow64_eq]
          norm_num
      _ ≤ _ := mul_le_mul least least (by positivity) (by positivity)
  · calc t.sqrtPrice / twoPow64 * (t.sqrtPrice / twoPow64) < twoPow64 * twoPow64 :=
          mul_lt_mul'' most most (by positivity) (by positivity)
      _ = (2 ^ 128 : ℕ) := by
          rw [twoPow64_eq]
          norm_num

/-- The bounds of the recentred range, in raw prices. -/
noncomputable def rawLower (input : DbBacktestInput ℝ) (t : PoolTickRow) : ℝ :=
  max (sqrtQ64ToPrice t.sqrtPrice * input.rangeFactorLower) (1e-9 / input.uiFactor)

noncomputable def rawUpper (input : DbBacktestInput ℝ) (t : PoolTickRow) : ℝ :=
  sqrtQ64ToPrice t.sqrtPrice * input.rangeFactorUpper

theorem lower_raw (input : DbBacktestInput ℝ) (t : PoolTickRow) :
    max (input.uiPrice t * input.rangeFactorLower) 1e-9 / input.uiFactor = rawLower input t := by
  have factor : 0 < input.uiFactor := uiFactor_pos ..
  rw [rawLower, DbBacktestInput.uiPrice, F64.sqrtQ64ToPrice_real, ← max_div_div_right factor.le,
    mul_right_comm, mul_div_cancel_right₀ _ factor.ne']

theorem upper_raw (input : DbBacktestInput ℝ) (t : PoolTickRow) :
    input.uiPrice t * input.rangeFactorUpper / input.uiFactor = rawUpper input t := by
  have factor : 0 < input.uiFactor := uiFactor_pos ..
  rw [rawUpper, DbBacktestInput.uiPrice, F64.sqrtQ64ToPrice_real, mul_right_comm,
    mul_div_cancel_right₀ _ factor.ne']

/-- The conversion to UI prices, between the decimals that `u8` allows. -/
theorem uiFactor_bounds (recentrable : input.Recentrable t) :
    ((2 : ℝ) ^ 1020)⁻¹ ≤ input.uiFactor ∧ input.uiFactor ≤ 2 ^ 1020 := by
  have decimalsA := recentrable.decimalsA
  have decimalsB := recentrable.decimalsB
  have power : (10 : ℝ) ^ (255 : ℤ) ≤ 2 ^ 1020 := by
    calc (10 : ℝ) ^ (255 : ℤ) = 10 ^ 255 := zpow_natCast 10 255
      _ ≤ (2 ^ 4) ^ 255 := pow_le_pow_left₀ (by norm_num) (by norm_num) 255
      _ = 2 ^ 1020 := (pow_mul 2 4 255).symm
  simp only [DbBacktestInput.uiFactor, F64.uiFactor_real, uiFactor, Nat.cast_ofNat]
  constructor
  · calc ((2 : ℝ) ^ 1020)⁻¹ ≤ (10 ^ (255 : ℤ))⁻¹ := inv_anti₀ (by positivity) power
      _ = 10 ^ (-255 : ℤ) := (zpow_neg 10 255).symm
      _ ≤ _ := zpow_le_zpow_right₀ (by norm_num) (by omega)
  · exact (zpow_le_zpow_right₀ (by norm_num) (by omega)).trans power

theorem floor_bounds (recentrable : input.Recentrable t) :
    ((2 ^ 1074 : ℕ) : ℝ)⁻¹ ≤ 1e-9 / input.uiFactor ∧ 1e-9 / input.uiFactor < (2 ^ 1025 : ℕ) := by
  obtain ⟨least, most⟩ := uiFactor_bounds recentrable
  have factor : 0 < input.uiFactor := uiFactor_pos ..
  simp only [Nat.cast_pow, Nat.cast_ofNat]
  constructor
  · rw [le_div_iff₀ factor, inv_mul_le_iff₀ (by positivity)]
    calc input.uiFactor ≤ 2 ^ 1020 := most
      _ ≤ 2 ^ 1020 * (2 ^ 54 * 1e-9) := le_mul_of_one_le_right (by positivity) (by norm_num)
      _ = 2 ^ 1074 * 1e-9 := by rw [← mul_assoc, ← pow_add]
  · rw [div_lt_iff₀ factor]
    calc (1e-9 : ℝ) < 2 ^ 5 * (2 ^ 1020 * (2 ^ 1020)⁻¹) := by
          rw [mul_inv_cancel₀ (by positivity)]
          norm_num
      _ = 2 ^ 1025 * (2 ^ 1020)⁻¹ := by rw [← mul_assoc, ← pow_add]
      _ ≤ 2 ^ 1025 * input.uiFactor := mul_le_mul_of_nonneg_left least (by positivity)

variable (recentrable : input.Recentrable t) (recorded : t.Recorded)
include recentrable recorded

theorem rawLower_ticks :
    -11000000 ≤ rawTick (rawLower input t) ∧ rawTick (rawLower input t) ≤ 11000000 := by
  obtain ⟨bottom, top⟩ := floor_bounds recentrable
  obtain ⟨least, most⟩ := rawPrice_bounds recorded
  refine rawTick_bounds (bottom.trans (le_max_right ..)) (max_lt ?_ top)
  have positive : 0 < sqrtQ64ToPrice t.sqrtPrice := lt_of_lt_of_le (by positivity) least
  calc sqrtQ64ToPrice t.sqrtPrice * input.rangeFactorLower ≤ sqrtQ64ToPrice t.sqrtPrice :=
        mul_le_of_le_one_right positive.le recentrable.lowerBelow.le
    _ < (2 ^ 128 : ℕ) := most
    _ ≤ (2 ^ 1025 : ℕ) := by exact_mod_cast Nat.pow_le_pow_right Nat.two_pos (by decide)

theorem rawUpper_ticks :
    -12000000 ≤ rawTick (rawUpper input t) ∧ rawTick (rawUpper input t) ≤ 12000000 := by
  obtain ⟨least, _⟩ := rawPrice_bounds recorded
  have positive : 0 < sqrtQ64ToPrice t.sqrtPrice := lt_of_lt_of_le (by positivity) least
  have bottom : ((2 ^ 128 : ℕ) : ℝ)⁻¹ ≤ rawUpper input t :=
    least.trans (le_mul_of_one_le_right positive.le recentrable.upperAbove.le)
  obtain ⟨low, high⟩ := floor_log_bounds bottom recentrable.rawFinite
  rw [rawTick_of_pos (lt_of_lt_of_le (by positivity) bottom)]
  omega

omit recentrable in
theorem tickCurrent_bounds : -1280000 ≤ t.tickCurrent ∧ t.tickCurrent ≤ 1280000 := by
  obtain ⟨least, most⟩ := rawPrice_bounds recorded
  have bounds := floor_log_bounds least most
  rw [recorded.tick]
  omega

/-- Neither multiple around the tick leaves `i32`. -/
theorem grid_bounds :
    (-2 ^ 31 < gridAbove t.tickCurrent input.tickSpacing ∧
      gridAbove t.tickCurrent input.tickSpacing < 2 ^ 31) ∧
    -2 ^ 31 < gridNext t.tickCurrent input.tickSpacing ∧
      gridNext t.tickCurrent input.tickSpacing < 2 ^ 31 := by
  obtain ⟨least, most⟩ := tickCurrent_bounds recorded
  obtain ⟨_, fits⟩ := recentrable.fits
  have spacing := recentrable.spacing
  have below := aligned_bounds spacing least most
  have mirrored := aligned_bounds spacing (show -1280000 ≤ -t.tickCurrent by omega)
    (show -t.tickCurrent ≤ 1280000 by omega)
  rw [gridAbove, gridNext, Int.neg_mul, Int.add_mul, Int.one_mul]
  omega

/-- The rounded bounds are around the tick exactly if the prices reach that far. -/
theorem inside_iff :
    (alignedTick (rawLower input t) input.tickSpacing ≤ t.tickCurrent ∧
      t.tickCurrent ≤ alignedTick (rawUpper input t) input.tickSpacing) ↔ input.Reaches t := by
  have spacing := recentrable.spacing
  obtain ⟨⟨aboveLeast, aboveMost⟩, nextLeast, nextMost⟩ := grid_bounds recentrable recorded
  have positive : 0 < sqrtQ64ToPrice t.sqrtPrice :=
    lt_of_lt_of_le (by positivity) (rawPrice_bounds recorded).1
  have lowerPos : 0 < rawLower input t :=
    lt_of_lt_of_le (mul_pos positive recentrable.lowerPos) (le_max_left ..)
  have upperPos : 0 < rawUpper input t :=
    mul_pos positive (one_pos.trans recentrable.upperAbove)
  -- the price itself is below the next multiple, so is the lower price before its floor
  have price : sqrtQ64ToPrice t.sqrtPrice <
      tickPrice (gridNext t.tickCurrent input.tickSpacing) := by
    rw [← not_le, ← le_floor_log_iff positive, ← recorded.tick, not_le,
      ← aligned_le_iff spacing]
    exact Int.ediv_mul_le _ spacing.ne'
  have scaled : sqrtQ64ToPrice t.sqrtPrice * input.rangeFactorLower <
      tickPrice (gridNext t.tickCurrent input.tickSpacing) :=
    (mul_le_of_le_one_right positive.le recentrable.lowerBelow.le).trans_lt price
  have lower : alignedTick (rawLower input t) input.tickSpacing ≤ t.tickCurrent ↔
      1e-9 / input.uiFactor < tickPrice (gridNext t.tickCurrent input.tickSpacing) := by
    rw [alignedTick, aligned_le_iff spacing, ← not_le, le_rawTick_iff lowerPos nextLeast nextMost,
      not_le, rawLower, max_lt_iff, and_iff_right scaled]
  have upper : t.tickCurrent ≤ alignedTick (rawUpper input t) input.tickSpacing ↔
      tickPrice (gridAbove t.tickCurrent input.tickSpacing) ≤
        sqrtQ64ToPrice t.sqrtPrice * input.rangeFactorUpper := by
    rw [alignedTick, le_aligned_iff spacing, le_rawTick_iff upperPos aboveLeast aboveMost, rawUpper]
  rw [lower, upper]
  exact ⟨fun both => ⟨both.2, both.1⟩, fun reaches => ⟨reaches.floor, reaches.upper⟩⟩

/-- A tick within the rounded bounds is at a distance from them that `i32` holds. -/
theorem distances_inRange
    (inside : alignedTick (rawLower input t) input.tickSpacing ≤ t.tickCurrent ∧
      t.tickCurrent ≤ alignedTick (rawUpper input t) input.tickSpacing) :
    InRange 32 (t.tickCurrent - alignedTick (rawLower input t) input.tickSpacing) ∧
      InRange 32 (alignedTick (rawUpper input t) input.tickSpacing - t.tickCurrent) := by
  obtain ⟨least, most⟩ := tickCurrent_bounds recorded
  obtain ⟨lowerLeast, lowerMost⟩ := rawLower_ticks recentrable recorded
  obtain ⟨upperLeast, upperMost⟩ := rawUpper_ticks recentrable recorded
  obtain ⟨_, fits⟩ := recentrable.fits
  have lower := aligned_bounds recentrable.spacing
    (show -12000000 ≤ rawTick (rawLower input t) by omega) (lowerMost.trans (by decide))
  have upper := aligned_bounds recentrable.spacing upperLeast upperMost
  -- a spacing beyond all ticks leaves the multiples zero and minus one, so the tick is not
  -- positive and no further from the lower one than the spacing
  unfold alignedTick InRange at *
  omega

/-! ### The rows after the rebalance -/

/-- A pass of the loop that rebalances at the row rounds the raw prices of the range. -/
theorem moved_ticks {before next : Replay ℝ} {i : ℕ} (stepped : before.step input checks i t = .ok next)
    (moved : next.totalRebalances = before.totalRebalances + 1) :
    next.tickLower = alignedTick (rawLower input t) input.tickSpacing ∧
      next.tickUpper = alignedTick (rawUpper input t) input.tickSpacing := by
  rcases Replay.step_cases stepped with held | recentered
  · rw [held, (Replay.observe_valued input before i t).rebalances] at moved
    omega
  · obtain ⟨lowerLeast, lowerMost⟩ := rawLower_ticks recentrable recorded
    obtain ⟨upperLeast, upperMost⟩ := rawUpper_ticks recentrable recorded
    have price : (before.observe input i t).lastPrice = input.uiPrice t := rfl
    have lower := recentered.lower
    have upper := recentered.upper
    rw [recentered.moved, DbBacktestInput.tickBound, price, lower_raw,
      priceToTick_of_ticks recentrable.spacing recentrable.fits (by omega) (by omega)] at lower
    rw [recentered.moved, DbBacktestInput.tickBound, price, upper_raw,
      priceToTick_of_ticks recentrable.spacing recentrable.fits (by omega) (by omega)] at upper
    exact ⟨(Except.ok.inj lower).symm, (Except.ok.inj upper).symm⟩

omit recentrable recorded in
/-- Within the bounds, at distances that do not wrap, a negative edge width never fires. -/
theorem step_inside {before : Replay ℝ} {i : ℕ}
    (inside : before.tickLower ≤ t.tickCurrent ∧ t.tickCurrent ≤ before.tickUpper)
    (fits : InRange 32 (t.tickCurrent - before.tickLower) ∧
      InRange 32 (before.tickUpper - t.tickCurrent))
    (off : input.rebalanceCfg.nearEdgeTicks < 0) :
    ∃ after, before.step input checks i t = .ok after ∧
      after.totalRebalances = before.totalRebalances := by
  obtain ⟨lower, upper⟩ := Replay.observe_bounds before input i t
  refine ⟨before.observe input i t, ?_, (Replay.observe_valued input before i t).rebalances⟩
  obtain ⟨reason, held⟩ := shouldRebalance_inside checks inside fits off
    ((before.observe input i t).cumulativeFees + (before.observe input i t).realizedIlUsd +
      (before.observe input i t).lastUnrealizedIlUsd)
  simp only [Replay.step, lower, upper, held]
  rfl

/-- A re-centred range recaptures the tick of its row exactly if its prices reach. -/
theorem recaptured_iff {before next : Replay ℝ} {i : ℕ}
    (stepped : before.step input checks i t = .ok next)
    (moved : next.totalRebalances = before.totalRebalances + 1) :
    Recaptured checks input t next ↔ input.Reaches t := by
  obtain ⟨lower, upper⟩ := moved_ticks recentrable recorded stepped moved
  rw [← inside_iff recentrable recorded, ← lower, ← upper]
  constructor
  · intro recaptured
    exact recaptured.inside
  · intro inside
    refine ⟨inside, ?_⟩
    intro off i following _ tick
    have fits := distances_inRange recentrable recorded (by rwa [← lower, ← upper])
    rw [← lower, ← upper] at fits
    rw [← tick] at inside fits
    exact step_inside inside fits off

end Recentred

/-! ### Two widths at one row -/

/-- A position far above the rows, to be put around them by the factors. -/
noncomputable def farInput (rangeFactorLower rangeFactorUpper : ℝ) : DbBacktestInput ℝ :=
  ⟨1, 1, (2 : ℕ), (4 : ℕ), 1, 64, 1, 0, 0, ⟨true, -1000000, 0⟩, rangeFactorLower, rangeFactorUpper⟩

/-- A row just above tick one. -/
def tickOneRow : PoolTickRow := ⟨0, "pool", 0, 1, 2 ^ 64 + 2 ^ 50, 1, 0, 0⟩

theorem tickOneRow_price : sqrtQ64ToPrice tickOneRow.sqrtPrice = (1 + 1 / 2 ^ 14) ^ 2 := by
  rw [sqrtQ64ToPrice_eq, twoPow64_eq]
  norm_num [tickOneRow]

theorem tickOneRow_recorded : tickOneRow.Recorded := by
  have positive : (0 : ℝ) < (1 + 1 / 2 ^ 14) ^ 2 := by positivity
  refine ⟨by decide, by decide, le_antisymm ?_ ?_⟩
  · rw [tickOneRow_price, le_floor_log_iff positive]
    norm_num [tickPrice, tickOneRow]
  · rw [tickOneRow_price, ← Int.lt_add_one_iff, ← not_le, le_floor_log_iff positive]
    norm_num [tickPrice, tickOneRow]

theorem tickPrice_64 : 1.006 ≤ tickPrice 64 ∧ tickPrice 64 ≤ 1.007 := by
  norm_num [tickPrice]

theorem tickOneRow_finite {upper : ℝ} (small : upper < 2) :
    sqrtQ64ToPrice tickOneRow.sqrtPrice * upper < (2 ^ 1024 : ℕ) := by
  have price : sqrtQ64ToPrice tickOneRow.sqrtPrice ≤ 2 := by
    rw [tickOneRow_price]
    norm_num
  have positive : 0 < sqrtQ64ToPrice tickOneRow.sqrtPrice := by
    rw [tickOneRow_price]
    positivity
  rw [Nat.cast_pow, Nat.cast_ofNat]
  calc sqrtQ64ToPrice tickOneRow.sqrtPrice * upper < 2 * 2 := by nlinarith
    _ = (2 : ℝ) ^ 2 := by norm_num
    _ ≤ 2 ^ 1024 := pow_le_pow_right₀ one_le_two (by decide)

theorem farInput_recentrable {lower upper : ℝ} (positive : 0 < lower) (below : lower < 1)
    (above : 1 < upper) (small : upper < 2) : (farInput lower upper).Recentrable tickOneRow where
  spacing := (by decide : (0 : ℤ) < 64)
  fits := (by decide : InRange 32 64)
  decimalsA := (by decide : 0 < 2 ^ 8)
  decimalsB := (by decide : 0 < 2 ^ 8)
  lowerPos := positive
  lowerBelow := below
  upperAbove := above
  upperFinite := by
    have factor : (farInput lower upper).uiFactor = 1 := uiFactor_self 0
    rw [DbBacktestInput.uiPrice, factor, mul_one]
    exact tickOneRow_finite small
  rawFinite := tickOneRow_finite small

/-- In the release build a tick outside the bounds re-centres the range. -/
theorem step_outside {input : DbBacktestInput ℝ} {before : Replay ℝ} (spacing : 0 < input.tickSpacing)
    (on : input.rebalanceCfg.rebalanceOutOfRange = true) (i : ℕ) (t : PoolTickRow)
    (outside : t.tickCurrent < before.tickLower ∨ before.tickUpper < t.tickCurrent) :
    ∃ next, before.step input false i t = .ok next ∧
      next.totalRebalances = before.totalRebalances + 1 := by
  obtain ⟨next, stepped⟩ := step_unchecked spacing before i t
  obtain ⟨lower, upper⟩ := Replay.observe_bounds before input i t
  refine ⟨next, stepped, ?_⟩
  rcases Replay.step_fires stepped with ⟨_, quiet⟩ | ⟨recentered, _⟩
  · refine absurd (Or.inl ⟨on, ?_⟩) quiet
    rwa [lower, upper]
  · rw [recentered.moved, ← (Replay.observe_valued input before i t).rebalances]

theorem farInput_recentres (lower upper : ℝ) :
    ∃ opened next, Replay.start (farInput lower upper) false tickOneRow = .ok opened ∧
      opened.step (farInput lower upper) false 0 tickOneRow = .ok next ∧
      opened.totalRebalances = 0 ∧ next.totalRebalances = opened.totalRebalances + 1 := by
  have spacing : 0 < (farInput lower upper).tickSpacing := (by decide : (0 : ℤ) < 64)
  obtain ⟨result, returned⟩ := runDbBacktest_unchecked spacing (List.cons_ne_nil tickOneRow [])
  obtain ⟨opened, _, start, _⟩ := runDbBacktest_ok returned
  have opening := Replay.start_ok start
  have two : FloatSized (farInput lower upper).priceLower :=
    floatSized_of_le (by norm_num [farInput]) (by norm_num [farInput])
  -- the range is opened at twice the price
  have bound := opening.lower
  rw [DbBacktestInput.tickBound_aligned rfl spacing (by decide : InRange 32 64) two] at bound
  have far : 2 ≤ opened.tickLower := by
    have grid : gridAbove 2 (farInput lower upper).tickSpacing = 64 := rfl
    rw [← Except.ok.inj bound, alignedTick, le_aligned_iff spacing, grid,
      le_rawTick_iff two.pos (by decide) (by decide)]
    exact tickPrice_64.2.trans (by norm_num [farInput])
  obtain ⟨next, stepped, moved⟩ :=
    step_outside spacing rfl 0 tickOneRow (Or.inl (show (1 : ℤ) < opened.tickLower by omega))
  exact ⟨opened, next, start, stepped, opening.rebalances, moved⟩

/-- Half and one and a half of the price are far enough for a spacing of 64. -/
theorem recaptured_iff_wide : ∃ before next : Replay ℝ,
    before.step (farInput 0.5 1.5) false 0 tickOneRow = .ok next ∧
      next.totalRebalances = before.totalRebalances + 1 ∧
      Recaptured false (farInput 0.5 1.5) tickOneRow next := by
  obtain ⟨opened, next, _, stepped, _, moved⟩ := farInput_recentres 0.5 1.5
  have recentrable : (farInput 0.5 1.5).Recentrable tickOneRow :=
    farInput_recentrable (by norm_num) (by norm_num) (by norm_num) (by norm_num)
  refine ⟨opened, next, stepped, moved,
    (recaptured_iff recentrable tickOneRow_recorded stepped moved).mpr ⟨?_, ?_⟩⟩
  · rw [tickOneRow_price]
    refine tickPrice_64.2.trans ?_
    norm_num [farInput]
  · have factor : (farInput 0.5 1.5).uiFactor = 1 := uiFactor_self 0
    rw [factor]
    exact lt_of_lt_of_le (by norm_num) tickPrice_64.1

/-- Half a percent is less than a spacing of 64: the upper bound falls to tick zero, and
every further row at tick one rebalances again. -/
theorem narrow_range_misses :
    (farInput 0.995 1.005).Recentrable tickOneRow ∧ tickOneRow.Recorded ∧
    ∃ opened next after, Replay.start (farInput 0.995 1.005) false tickOneRow = .ok opened ∧
      opened.step (farInput 0.995 1.005) false 0 tickOneRow = .ok next ∧
      next.totalRebalances = 1 ∧ next.tickUpper < tickOneRow.tickCurrent ∧
      next.step (farInput 0.995 1.005) false 1 tickOneRow = .ok after ∧
      after.totalRebalances = 2 := by
  have recentrable : (farInput 0.995 1.005).Recentrable tickOneRow :=
    farInput_recentrable (by norm_num) (by norm_num) (by norm_num) (by norm_num)
  obtain ⟨opened, next, start, stepped, zero, moved⟩ := farInput_recentres 0.995 1.005
  have below : next.tickUpper < tickOneRow.tickCurrent := by
    have positive : 0 < rawUpper (farInput 0.995 1.005) tickOneRow := by
      rw [rawUpper, tickOneRow_price]
      norm_num [farInput]
    have grid : gridAbove tickOneRow.tickCurrent (farInput 0.995 1.005).tickSpacing = 64 := rfl
    rw [(moved_ticks recentrable tickOneRow_recorded stepped moved).2, ← not_le, alignedTick,
      le_aligned_iff recentrable.spacing, grid, le_rawTick_iff positive (by decide) (by decide),
      not_le, rawUpper, tickOneRow_price]
    refine lt_of_lt_of_le ?_ tickPrice_64.1
    norm_num [farInput]
  obtain ⟨after, again, twice⟩ := step_outside recentrable.spacing rfl 1 tickOneRow (Or.inr below)
  exact ⟨recentrable, tickOneRow_recorded, opened, next, after, start, stepped, by omega, below,
    again, by omega⟩

end TickLiq
