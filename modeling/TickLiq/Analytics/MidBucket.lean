import TickLiq.Analytics.Anchored

/-!
# What is active in the middle of a bucket

A bucket starts at an unaligned tick and reports what is active at its start. The one
tick of the grid inside it may lie before its middle, and then the report misses it.
-/
namespace TickLiq

/-- The active liquidity at `t`, by crossing the ticks between `t` and the current one. -/
def activeLiquidity (ticks : List (ℤ × ℤ)) (currentTick currentLiquidity t : ℤ) : ℤ :=
  if currentTick ≤ t then currentLiquidity + liquidityBetween ticks currentTick t
  else currentLiquidity - liquidityBetween ticks t currentTick

theorem activeLiquidity_eq (ticks : List (ℤ × ℤ)) (currentTick currentLiquidity t : ℤ) :
    activeLiquidity ticks currentTick currentLiquidity t =
      activeAt ticks currentTick currentLiquidity t := by
  unfold activeLiquidity
  split
  next after => exact (activeAt_right ticks after).symm
  next before => exact (activeAt_left ticks (le_of_not_ge before)).symm

/-- What crossing tick `t` upwards adds. -/
def netAt (ticks : List (ℤ × ℤ)) (t : ℤ) : ℤ :=
  ((ticks.filter fun e => decide (e.1 = t)).map Prod.snd).sum

/-- The first tick of the grid after the start of bucket `j`. -/
def gridTickAfter (currentTick : ℤ) (tickSpacing : ℕ) (j : ℤ) : ℤ :=
  bucketStart currentTick tickSpacing j + (tickSpacing - currentTick % tickSpacing)

theorem gridTickAfter_aligned (currentTick : ℤ) (tickSpacing : ℕ) (j : ℤ) :
    (tickSpacing : ℤ) ∣ gridTickAfter currentTick tickSpacing j := by
  have split : gridTickAfter currentTick tickSpacing j =
      (currentTick - currentTick % tickSpacing) + (j + 1) * tickSpacing := by
    simp only [gridTickAfter, bucketStart]
    ring
  rw [split]
  exact dvd_add (Int.dvd_self_sub_emod) (dvd_mul_left _ _)

/-- Nothing that counts lies between the start and the middle of bucket `j`. -/
def MidBucketClear (ticks : List (ℤ × ℤ)) (currentTick : ℤ) (tickSpacing : ℕ)
    (currentLiquidity j : ℤ) : Prop :=
  bucketMid currentTick tickSpacing j < gridTickAfter currentTick tickSpacing j ∨
  netAt ticks (gridTickAfter currentTick tickSpacing j) = 0 ∨
  activeLiquidity ticks currentTick currentLiquidity (bucketStart currentTick tickSpacing j) ≤ 0 ∧
    activeLiquidity ticks currentTick currentLiquidity
      (gridTickAfter currentTick tickSpacing j) ≤ 0

section Middle

variable {ticks : List (ℤ × ℤ)} (currentTick : ℤ) {tickSpacing : ℕ}
  (positive : 1 ≤ tickSpacing)
include positive

theorem gridTickAfter_bounds (j : ℤ) :
    bucketStart currentTick tickSpacing j < gridTickAfter currentTick tickSpacing j ∧
      bucketMid currentTick tickSpacing j <
        gridTickAfter currentTick tickSpacing j + tickSpacing := by
  have some : (0 : ℤ) < tickSpacing := by omega
  have residue := Int.emod_lt_of_pos currentTick some
  have nonneg := Int.emod_nonneg currentTick some.ne'
  have half := half_spacing tickSpacing
  simp only [gridTickAfter, bucketMid]
  omega

/-- Up to the second tick of the grid after the start of a bucket, only the first is crossed. -/
theorem crosses_one {e : ℤ × ℤ} (aligned : (tickSpacing : ℤ) ∣ e.1) (j : ℤ) {upto : ℤ}
    (near : upto < gridTickAfter currentTick tickSpacing j + tickSpacing) :
    crosses (bucketStart currentTick tickSpacing j) upto e =
      decide (e.1 = gridTickAfter currentTick tickSpacing j ∧
        gridTickAfter currentTick tickSpacing j ≤ upto) := by
  have start := (gridTickAfter_bounds currentTick positive j).1
  have some : (tickSpacing : ℤ) ≠ 0 := by omega
  have residue := Int.emod_nonneg currentTick some
  simp only [crosses, ← Bool.decide_and, decide_eq_decide]
  constructor
  · intro inside
    have gap := Int.dvd_sub aligned (gridTickAfter_aligned currentTick tickSpacing j)
    -- two ticks of the grid less than one spacing apart
    have below : gridTickAfter currentTick tickSpacing j - tickSpacing < e.1 := by
      simp only [gridTickAfter] at near inside ⊢
      omega
    have none := Int.eq_zero_of_abs_lt_dvd gap (abs_lt.mpr ⟨by omega, by omega⟩)
    omega
  · intro here
    omega

theorem liquidityBetween_one (aligned : ∀ e ∈ ticks, (tickSpacing : ℤ) ∣ e.1) (j : ℤ) {upto : ℤ}
    (near : upto < gridTickAfter currentTick tickSpacing j + tickSpacing) :
    liquidityBetween ticks (bucketStart currentTick tickSpacing j) upto =
      if gridTickAfter currentTick tickSpacing j ≤ upto then
        netAt ticks (gridTickAfter currentTick tickSpacing j) else 0 := by
  have same := List.filter_congr fun e member =>
    crosses_one currentTick positive (aligned e member) j near
  rw [liquidityBetween, same]
  split
  next before => simp [netAt, before]
  next after => simp [after]

/-- The two amounts of a bucket agree, clamped, only if nothing that counts is in between. -/
theorem midBucketClear_iff (aligned : ∀ e ∈ ticks, (tickSpacing : ℤ) ∣ e.1)
    (currentLiquidity j : ℤ) :
    max 0 (activeLiquidity ticks currentTick currentLiquidity
        (bucketStart currentTick tickSpacing j)) =
      max 0 (activeLiquidity ticks currentTick currentLiquidity
        (bucketMid currentTick tickSpacing j)) ↔
    MidBucketClear ticks currentTick tickSpacing currentLiquidity j := by
  have bounds := gridTickAfter_bounds currentTick positive j
  have half := half_spacing tickSpacing
  have toMid := liquidityBetween_one currentTick positive aligned j bounds.2
  have second : gridTickAfter currentTick tickSpacing j <
      gridTickAfter currentTick tickSpacing j + tickSpacing := by omega
  have toGrid := liquidityBetween_one currentTick positive aligned j second
  have mid : bucketStart currentTick tickSpacing j ≤ bucketMid currentTick tickSpacing j := by
    simp only [bucketMid]
    omega
  simp only [MidBucketClear, activeLiquidity_eq]
  rw [activeAt_between ticks mid, activeAt_between ticks bounds.1.le, toMid, toGrid,
    if_pos le_rfl]
  -- the tick counts for the middle only if it is not after it
  split <;> omega

end Middle

section Reported

variable {checks : Bool} {ticks : List (ℤ × ℤ)} {currentTick : ℤ}
  {tickSpacing currentLiquidity n : ℕ}

/-- Every bucket reports what is active in its middle exactly where no initialized tick
that counts lies between its start and its middle. -/
theorem buildDistribution_mid_iff (positive : 1 ≤ tickSpacing)
    (aligned : ∀ e ∈ ticks, (tickSpacing : ℤ) ∣ e.1) (small : currentLiquidity < 2 ^ 127)
    (few : n < 2 ^ 31)
    (unwrapped : checks = false → FitsWords ticks currentTick tickSpacing currentLiquidity n)
    {levels : List (LiquidityLevel ℝ)}
    (built : buildDistribution checks ticks currentTick tickSpacing currentLiquidity n =
      .ok levels) :
    (∀ j : ℤ, -n ≤ j → j ≤ n → ∃ level, levels[(j + n).toNat]? = some level ∧
      (level.liquidity : ℤ) = max 0 (activeLiquidity ticks currentTick currentLiquidity
        (bucketMid currentTick tickSpacing j))) ↔
    ∀ j : ℤ, -n ≤ j → j ≤ n →
      MidBucketClear ticks currentTick tickSpacing currentLiquidity j := by
  have fits : FitsWords ticks currentTick tickSpacing currentLiquidity n := by
    cases checks with
    | false => exact unwrapped rfl
    | true => exact FitsWords.of_built small few built
  -- the levels are those of the closed form
  have same := fits.built (K := ℝ) positive checks
  rw [built] at same
  cases same
  have reported : ∀ j : ℤ, -n ≤ j → j ≤ n →
      ((∃ level, (distribution (K := ℝ) ticks currentTick tickSpacing currentLiquidity n)[
          (j + n).toNat]? = some level ∧
        (level.liquidity : ℤ) = max 0 (activeLiquidity ticks currentTick currentLiquidity
          (bucketMid currentTick tickSpacing j))) ↔
        MidBucketClear ticks currentTick tickSpacing currentLiquidity j) := by
    intro j left right
    rw [distribution_getElem _ _ _ _ left right,
      ← midBucketClear_iff currentTick positive aligned]
    simp only [Option.some.injEq, exists_eq_left', bucketLevel, levelAt_liquidity,
      activeLiquidity_eq, max_comm]
  constructor
  · intro all j left right
    exact (reported j left right).mp (all j left right)
  · intro all j left right
    exact (reported j left right).mpr (all j left right)

end Reported

/-! ### A tick before the middle -/

def steppedPool : List (ℤ × ℤ) := [(0, 1000), (64, 500), (128, -1500)]

theorem buildDistribution_mid_iff_aligned : ∃ levels,
    buildDistribution (K := ℝ) true steppedPool 0 (64 : ℕ) 1000 1 = .ok levels ∧
      ∀ j : ℤ, -(1 : ℕ) ≤ j → j ≤ (1 : ℕ) → ∃ level, levels[(j + (1 : ℕ)).toNat]? = some level ∧
        (level.liquidity : ℤ) =
          max 0 (activeLiquidity steppedPool 0 (1000 : ℕ) (bucketMid 0 64 j)) := by
  have fits : FitsWords steppedPool 0 64 1000 1 := by decide
  have built := fits.built (K := ℝ) (by decide) true
  refine ⟨_, built, ?_⟩
  apply (buildDistribution_mid_iff (by decide) (by decide) (by decide) (by decide)
    (by simp) built).mpr
  intro j _ _
  left
  have middle : (64 : ℤ).tdiv 2 = 32 := rfl
  simp [bucketMid, gridTickAfter, middle]

/-- The tick at 64 lies after the start of the current bucket, 40, and before its middle, 72. -/
theorem buildDistribution_misses_tick : ∃ levels level,
    buildDistribution (K := ℝ) true steppedPool 40 (64 : ℕ) 1000 1 = .ok levels ∧
      levels[1]? = some level ∧ level.liquidity = 1000 ∧
      max 0 (activeLiquidity steppedPool 40 1000 (bucketMid 40 64 0)) = 1500 := by
  have fits : FitsWords steppedPool 40 64 1000 1 := by decide
  refine ⟨_, _, fits.built (by decide) true,
    distribution_getElem _ _ _ _ (by decide : -((1 : ℕ) : ℤ) ≤ 0) (by decide), ?_, by decide⟩
  have start : activeAt steppedPool 40 1000 (bucketStart 40 64 0) = 1000 := by decide
  simp [bucketLevel, levelAt, start]

end TickLiq
