import TickLiq.Analytics.Depth
import TickLiq.Math.Libm

/-!
# The distribution as an anchored prefix sum

Both walks start at the current tick with the liquidity the pool reports there, so each
bucket holds what a prefix sum over all ticks would give, shifted to fit the anchor.
-/
namespace TickLiq

open Machine (InRange bind_ok_iff Binary64)

/-- What all ticks up to `t` add. -/
def liquidityUpTo (ticks : List (ℤ × ℤ)) (t : ℤ) : ℤ :=
  ((ticks.filter fun e => decide (e.1 ≤ t)).map Prod.snd).sum

/-- The active liquidity at tick `t` of a pool that has `currentLiquidity` at `currentTick`. -/
def activeAt (ticks : List (ℤ × ℤ)) (currentTick currentLiquidity t : ℤ) : ℤ :=
  currentLiquidity + liquidityUpTo ticks t - liquidityUpTo ticks currentTick

section PrefixSum

variable (ticks : List (ℤ × ℤ)) {currentTick currentLiquidity t : ℤ}

theorem liquidityBetween_eq_sub {above upto : ℤ} (le : above ≤ upto) :
    liquidityBetween ticks above upto = liquidityUpTo ticks upto - liquidityUpTo ticks above := by
  simp only [liquidityBetween, liquidityUpTo]
  induction ticks with
  | nil => rfl
  | cons e ticks ih =>
    simp only [List.filter_cons, crosses, Bool.and_eq_true, decide_eq_true_iff] at ih ⊢
    -- up to `above` a tick is in both prefixes, up to `upto` in one
    by_cases low : e.1 ≤ above
    · rw [if_neg (by omega), if_pos (by omega), if_pos low]
      simp [ih]
    · by_cases high : e.1 ≤ upto
      · rw [if_pos (by omega), if_pos high, if_neg low]
        simp [ih, add_sub_assoc]
      · rw [if_neg (by omega), if_neg high, if_neg low]
        exact ih

theorem activeAt_right (after : currentTick ≤ t) :
    activeAt ticks currentTick currentLiquidity t =
      currentLiquidity + liquidityBetween ticks currentTick t := by
  rw [liquidityBetween_eq_sub ticks after, activeAt, add_sub_assoc]

theorem activeAt_left (before : t ≤ currentTick) :
    activeAt ticks currentTick currentLiquidity t =
      currentLiquidity - liquidityBetween ticks t currentTick := by
  rw [liquidityBetween_eq_sub ticks before, activeAt]
  ring

/-- Another anchor with the liquidity that is active there. -/
theorem activeAt_anchor (other : ℤ) :
    activeAt ticks other (activeAt ticks currentTick currentLiquidity other) t =
      activeAt ticks currentTick currentLiquidity t := by
  simp only [activeAt]
  ring

theorem activeAt_between {u : ℤ} (le : t ≤ u) :
    activeAt ticks currentTick currentLiquidity u =
      activeAt ticks currentTick currentLiquidity t + liquidityBetween ticks t u := by
  rw [liquidityBetween_eq_sub ticks le]
  simp only [activeAt]
  ring

end PrefixSum

/-! ### The levels by bucket number -/

def bucketStart (currentTick : ℤ) (tickSpacing : ℕ) (j : ℤ) : ℤ := currentTick + j * tickSpacing

/-- The tick whose price the level of bucket `j` carries. -/
def bucketMid (currentTick : ℤ) (tickSpacing : ℕ) (j : ℤ) : ℤ :=
  bucketStart currentTick tickSpacing j + (tickSpacing : ℤ).tdiv 2

variable {K : Type} [TickPrice K]

def bucketLevel (ticks : List (ℤ × ℤ)) (currentTick : ℤ) (tickSpacing : ℕ)
    (currentLiquidity j : ℤ) : LiquidityLevel K :=
  levelAt (bucketMid currentTick tickSpacing j)
    (activeAt ticks currentTick currentLiquidity (bucketStart currentTick tickSpacing j))

theorem levelAt_liquidity (mid running : ℤ) :
    ((levelAt (K := K) mid running).liquidity : ℤ) = max running 0 :=
  Int.toNat_of_nonneg (le_max_right running 0)

section Levels

variable (ticks : List (ℤ × ℤ)) (currentTick : ℤ) (tickSpacing : ℕ) (currentLiquidity : ℤ)

theorem rightLevel_eq (i : ℕ) : rightLevel (K := K) ticks currentTick tickSpacing currentLiquidity i =
    bucketLevel (K := K) ticks currentTick tickSpacing currentLiquidity i := by
  have after : currentTick ≤ currentTick + i * tickSpacing :=
    le_add_of_nonneg_right (by positivity)
  rw [rightLevel, bucketLevel, bucketMid, bucketStart, activeAt_right ticks after]

theorem leftLevel_eq (i : ℕ) : leftLevel (K := K) ticks currentTick tickSpacing currentLiquidity i =
    bucketLevel (K := K) ticks currentTick tickSpacing currentLiquidity (-i) := by
  have before : currentTick - i * tickSpacing ≤ currentTick := sub_le_self _ (by positivity)
  have start : currentTick + -(i : ℤ) * tickSpacing = currentTick - i * tickSpacing := by ring
  rw [leftLevel, bucketLevel, bucketMid, bucketStart, start, activeAt_left ticks before]

/-- From the leftmost bucket `-n` to the rightmost `n`. -/
theorem distribution_eq (n : ℕ) :
    distribution (K := K) ticks currentTick tickSpacing currentLiquidity n =
    (List.range (2 * n + 1)).map fun k : ℕ =>
      bucketLevel (K := K) ticks currentTick tickSpacing currentLiquidity (k - n) := by
  have split : 2 * n + 1 = n + (n + 1) := by ring
  have left : ((List.range n).map fun i : ℕ =>
      leftLevel (K := K) ticks currentTick tickSpacing currentLiquidity (i + 1)).reverse =
      (List.range n).map fun k : ℕ =>
        bucketLevel (K := K) ticks currentTick tickSpacing currentLiquidity (k - n) := by
    apply List.ext_getElem
    · simp
    · intro k below _
      -- the walk to the left has seen bucket `k - n` as its `n - k`th
      simp only [List.length_reverse, List.length_map, List.length_range] at below
      have mirrored : -((n - 1 - k + 1 : ℕ) : ℤ) = k - n := by omega
      simp only [List.getElem_reverse, List.getElem_map, List.getElem_range, List.length_map,
        List.length_range]
      rw [← Nat.cast_add_one, leftLevel_eq, mirrored]
  have right : ((List.range (n + 1)).map fun i : ℕ =>
      rightLevel (K := K) ticks currentTick tickSpacing currentLiquidity i) =
      (List.range (n + 1)).map fun i : ℕ =>
        bucketLevel (K := K) ticks currentTick tickSpacing currentLiquidity ((n + i : ℕ) - n) := by
    apply List.map_congr_left
    intro i _
    rw [rightLevel_eq, Nat.cast_add, add_sub_cancel_left]
  have whole : List.range (n + (n + 1)) =
      List.range n ++ (List.range (n + 1)).map (n + ·) := List.range_add
  rw [distribution, left, right, split, whole, List.map_append, List.map_map]
  rfl

theorem distribution_length (n : ℕ) :
    (distribution (K := K) ticks currentTick tickSpacing currentLiquidity n).length = 2 * n + 1 := by
  simp [distribution_eq]

theorem distribution_getElem {n : ℕ} {j : ℤ} (left : -n ≤ j) (right : j ≤ n) :
    (distribution (K := K) ticks currentTick tickSpacing currentLiquidity n)[(j + n).toNat]? =
      some (bucketLevel (K := K) ticks currentTick tickSpacing currentLiquidity j) := by
  have below : (j + n).toNat < 2 * n + 1 := by omega
  have number : (((j + n).toNat : ℕ) : ℤ) - n = j := by omega
  rw [distribution_eq, List.getElem?_map, List.getElem?_range below, Option.map_some, number]

/-- The prices rise with the middle ticks of the buckets. -/
theorem distribution_ascending [LT K] (positive : 1 ≤ tickSpacing) (n : ℕ)
    (rising : ∀ a b, a < b → bucketMid currentTick tickSpacing (-n) ≤ a →
      b ≤ bucketMid currentTick tickSpacing n →
      (TickPrice.tickPrice a : K) < TickPrice.tickPrice b) :
    (distribution (K := K) ticks currentTick tickSpacing currentLiquidity n).Pairwise
      fun low high => low.price < high.price := by
  rw [distribution_eq, List.pairwise_map]
  apply List.Pairwise.imp_of_mem _ List.pairwise_lt_range
  intro k l _ last before
  have apart : ((k : ℤ) - n) * tickSpacing < ((l : ℤ) - n) * tickSpacing :=
    mul_lt_mul_of_pos_right (by omega) (by omega)
  have inside := List.mem_range.mp last
  have first : -(n : ℤ) * tickSpacing ≤ ((k : ℤ) - n) * tickSpacing :=
    mul_le_mul_of_nonneg_right (by omega) (by omega)
  have end' : ((l : ℤ) - n) * tickSpacing ≤ n * tickSpacing :=
    mul_le_mul_of_nonneg_right (by omega) (by omega)
  apply rising <;> simp only [bucketMid, bucketStart] <;> omega

end Levels

/-! ### Moving the anchor -/

/-- All that a call of `build_distribution` computes stays in its machine integers. -/
structure FitsWords (ticks : List (ℤ × ℤ)) (currentTick : ℤ) (tickSpacing currentLiquidity n : ℕ) :
    Prop where
  liquidity : currentLiquidity < 2 ^ 127
  lowest : -2 ^ 31 ≤ currentTick - n * tickSpacing
  highest : currentTick + n * tickSpacing + tickSpacing < 2 ^ 31
  crossed : CrossedFit ticks currentTick tickSpacing n
  running : SumsFit ticks currentTick tickSpacing currentLiquidity n

instance (ticks : List (ℤ × ℤ)) (currentTick : ℤ) (tickSpacing currentLiquidity n : ℕ) :
    Decidable (FitsWords ticks currentTick tickSpacing currentLiquidity n) :=
  decidable_of_iff (currentLiquidity < 2 ^ 127 ∧ -2 ^ 31 ≤ currentTick - n * tickSpacing ∧
      currentTick + n * tickSpacing + tickSpacing < 2 ^ 31 ∧
      CrossedFit ticks currentTick tickSpacing n ∧
      SumsFit ticks currentTick tickSpacing currentLiquidity n)
    ⟨fun ⟨a, b, c, d, e⟩ => ⟨a, b, c, d, e⟩, fun ⟨a, b, c, d, e⟩ => ⟨a, b, c, d, e⟩⟩

section Anchors

variable {ticks : List (ℤ × ℤ)} {currentTick : ℤ} {tickSpacing currentLiquidity n : ℕ}

theorem FitsWords.ticksFit (fits : FitsWords ticks currentTick tickSpacing currentLiquidity n)
    (positive : 1 ≤ tickSpacing) : TicksFit currentTick tickSpacing n := by
  have least : (n : ℤ) * 1 ≤ n * tickSpacing :=
    mul_le_mul_of_nonneg_left (by omega) (by omega)
  obtain ⟨_, lowest, highest, _, _⟩ := fits
  exact ⟨by omega, lowest, highest⟩

theorem FitsWords.built (fits : FitsWords ticks currentTick tickSpacing currentLiquidity n)
    (positive : 1 ≤ tickSpacing) (checks : Bool) :
    buildDistribution (K := K) checks ticks currentTick tickSpacing currentLiquidity n =
      .ok (distribution (K := K) ticks currentTick tickSpacing currentLiquidity n) :=
  buildDistribution_eq checks (fits.ticksFit positive) fits.crossed fits.running fits.liquidity rfl

/-- A build with overflow checks returns levels only where all fits. -/
theorem FitsWords.of_built {levels : List (LiquidityLevel K)} (small : currentLiquidity < 2 ^ 127)
    (few : n < 2 ^ 31)
    (built : buildDistribution true ticks currentTick tickSpacing currentLiquidity n =
      .ok levels) : FitsWords ticks currentTick tickSpacing currentLiquidity n := by
  have buckets : wrapI32 n = n := Int.bmod_eq_of_le (by omega) (by omega)
  have start : wrapI128 currentLiquidity = currentLiquidity :=
    Int.bmod_eq_of_le (by omega) (by omega)
  simp only [buildDistribution, buckets, start, bind_ok_iff] at built
  obtain ⟨right, walkedRight, left, walkedLeft, _⟩ := built
  have starts : InRange 128 (currentLiquidity : ℤ) := ⟨by omega, by omega⟩
  obtain ⟨_, ⟨lowest, highest⟩, crossedRight, sumsRight⟩ := rightWalk_true starts walkedRight
  obtain ⟨_, furthest, crossedLeft, sumsLeft⟩ := leftWalk_true starts walkedLeft
  refine ⟨small, ?_, highest, ?_, fun i near => ⟨sumsRight i near, sumsLeft i near⟩⟩
  · -- with no bucket to the left the lowest tick is the current one
    rcases Nat.eq_zero_or_pos n with none | some
    · subst none
      simpa using lowest
    · exact furthest some
  · intro j from' below
    by_cases nonneg : 0 ≤ j
    · obtain ⟨i, rfl⟩ := Int.eq_ofNat_of_zero_le nonneg
      exact crossedRight i (by omega)
    · -- bucket `-(i + 1)` is the one the left walk reaches after `i` others
      have reached : 0 ≤ -j - 1 := by omega
      obtain ⟨i, same⟩ := Int.eq_ofNat_of_zero_le reached
      have number : j = -((i : ℤ) + 1) := by omega
      have lower : currentTick + -((i : ℤ) + 1) * tickSpacing =
          currentTick - (i + 1) * tickSpacing := by ring
      have upper : currentTick + (-((i : ℤ) + 1) + 1) * tickSpacing =
          currentTick - i * tickSpacing := by ring
      rw [number, lower, upper]
      exact crossedLeft i (by omega)

/-- One spacing further, with the liquidity that is active there, bucket `j - 1` is what bucket
`j` was. -/
theorem bucketLevel_next (ticks : List (ℤ × ℤ)) (currentTick : ℤ) (tickSpacing : ℕ)
    (liquidity j : ℤ) :
    bucketLevel (K := K) ticks (currentTick + tickSpacing) tickSpacing
        (activeAt ticks currentTick liquidity (currentTick + tickSpacing)) (j - 1) =
      bucketLevel (K := K) ticks currentTick tickSpacing liquidity j := by
  have start : bucketStart (currentTick + tickSpacing) tickSpacing (j - 1) =
      bucketStart currentTick tickSpacing j := by
    simp only [bucketStart]
    ring
  simp only [bucketLevel, bucketMid, start, activeAt_anchor]

end Anchors

/-! ### Prices in `f64` -/

instance Libm.tickPrice [Libm] : TickPrice Binary64 := ⟨Libm.powi 1.0001⟩

/-- Five digits are enough to tell a tick from the next. -/
theorem tickPrice_rising [Libm] [Libm.TickPowers] {a b : ℤ} (before : a < b)
    (least : -7000000 ≤ a) (most : b ≤ 7000000) :
    (TickPrice.tickPrice a : Binary64) < TickPrice.tickPrice b := by
  obtain ⟨v, tick, large, _⟩ := Rounded.reads_tick
  have one : 1 ≤ v := le_trans (by norm_num) large
  obtain ⟨x, low, near⟩ := Libm.TickPowers.powi_tick v tick a (abs_le.mpr ⟨by omega, by omega⟩)
  obtain ⟨y, high, near'⟩ := Libm.TickPowers.powi_tick v tick b (abs_le.mpr ⟨by omega, by omega⟩)
  refine (low.lt_iff high).mpr ?_
  have positive : 0 < v ^ a := zpow_pos (by linarith) a
  have next : v ^ a * 1.000099 ≤ v ^ b := by
    calc v ^ a * 1.000099 ≤ v ^ a * v := mul_le_mul_of_nonneg_left large positive.le
      _ = v ^ (a + 1) := (zpow_add_one₀ (by linarith) a).symm
      _ ≤ v ^ b := zpow_le_zpow_right₀ one before
  have above := (abs_le.mp near).2
  have below := (abs_le.mp near').1
  norm_num at next
  linarith

section Anchors

variable {ticks : List (ℤ × ℤ)} {currentTick : ℤ} {tickSpacing currentLiquidity n : ℕ}

/-- The levels are an anchored prefix sum, whatever the order and the repetitions of the ticks,
and the anchor can be moved without changing them. Their prices rise as long as the middle ticks
stay where `f64` has powers. -/
theorem buildDistribution_anchored [Libm] [Libm.TickPowers] (checks : Bool)
    (positive : 1 ≤ tickSpacing)
    (fits : FitsWords ticks currentTick tickSpacing currentLiquidity n) :
    ∃ levels : List (LiquidityLevel Binary64),
      buildDistribution checks ticks currentTick tickSpacing currentLiquidity n = .ok levels ∧
      levels.length = 2 * n + 1 ∧
      (-7000000 ≤ bucketMid currentTick tickSpacing (-n) →
        bucketMid currentTick tickSpacing n ≤ 7000000 →
        levels.Pairwise fun low high => low.price < high.price) ∧
      (∀ j : ℤ, -n ≤ j → j ≤ n → ∃ level, levels[(j + n).toNat]? = some level ∧
        (level.liquidity : ℤ) = max 0 (currentLiquidity +
          liquidityUpTo ticks (currentTick + j * tickSpacing) - liquidityUpTo ticks currentTick)) ∧
      ∀ moved : ℕ, (moved : ℤ) = currentLiquidity +
          liquidityUpTo ticks (currentTick + tickSpacing) - liquidityUpTo ticks currentTick →
        FitsWords ticks (currentTick + tickSpacing) tickSpacing moved n →
        ∃ levels' : List (LiquidityLevel Binary64),
          buildDistribution checks ticks (currentTick + tickSpacing) tickSpacing moved n =
            .ok levels' ∧
          ∀ j : ℤ, -n < j → j ≤ n →
            levels'[(j - 1 + n).toNat]? = levels[(j + n).toNat]? := by
  refine ⟨_, fits.built positive checks, distribution_length .., ?_, ?_, ?_⟩
  · intro least most
    -- the prices depend on the mids only, and these stay where the power is accurate
    apply distribution_ascending _ _ _ _ positive
    intro a b before first last
    exact tickPrice_rising before (least.trans first) (last.trans most)
  · intro j left right
    refine ⟨_, distribution_getElem ticks currentTick tickSpacing currentLiquidity left right, ?_⟩
    rw [bucketLevel, levelAt_liquidity, max_comm]
    rfl
  · intro moved active fits'
    refine ⟨_, fits'.built positive checks, ?_⟩
    intro j left right
    -- a shared bucket is number j here and j - 1 from the new anchor
    rw [distribution_getElem _ _ _ _ (by omega) (by omega),
      distribution_getElem _ _ _ _ (by omega) right, active]
    exact congrArg some (bucketLevel_next ticks currentTick tickSpacing currentLiquidity j)

end Anchors

/-- Out of order, and with one tick listed twice. -/
def scattered : List (ℤ × ℤ) := [(64, 500), (-64, 200), (64, -100)]

theorem buildDistribution_anchored_scattered : ∃ levels levels',
    @buildDistribution Binary64 (@Libm.tickPrice Libm.ideal) true scattered 10 (64 : ℕ) 1000 1 =
        .ok levels ∧ levels.length = 3 ∧
      (levels.Pairwise fun low high => low.price < high.price) ∧
      @buildDistribution Binary64 (@Libm.tickPrice Libm.ideal) true scattered (10 + (64 : ℕ))
        (64 : ℕ) 1400 1 = .ok levels' ∧
      levels'[0]? = levels[1]? ∧ levels'[1]? = levels[2]? := by
  let _ : Libm := Libm.ideal
  obtain ⟨levels, built, count, rising, _, moves⟩ :=
    buildDistribution_anchored true (by decide)
      (by decide : FitsWords scattered 10 64 1000 1)
  obtain ⟨levels', moved, shared⟩ := moves 1400 (by decide) (by decide)
  exact ⟨levels, levels', built, count, rising (by decide) (by decide), moved,
    shared 0 (by decide) (by decide), shared 1 (by decide) (by decide)⟩

/-- Ten thousand ticks make a factor of 1.9, and twenty millions of them overflow. -/
theorem tickPrice_infinite {n : ℤ} (far : 19980000 ≤ n) :
    @TickPrice.tickPrice Binary64 (@Libm.tickPrice Libm.ideal) n = .inf false := by
  obtain ⟨v, tick, large, _⟩ := Rounded.reads_tick
  have one : 1 ≤ v := le_trans (by norm_num) large
  -- Bernoulli: ten thousand ticks multiply the price by 1.9 at least
  have ten : (1.9 : ℚ) ≤ v ^ 10000 := by
    have bernoulli := one_add_mul_le_pow (show (-2 : ℚ) ≤ v - 1 by linarith) 10000
    rw [add_sub_cancel] at bernoulli
    norm_num at bernoulli large ⊢
    linarith
  have power : ((2 ^ 1024 : ℕ) : ℚ) ≤ v ^ n := by
    calc ((2 ^ 1024 : ℕ) : ℚ) ≤ (2 ^ 2) ^ 666 := by
          rw [Nat.cast_pow, Nat.cast_ofNat, ← pow_mul 2 2 666]
          exact pow_le_pow_right₀ one_le_two (by decide)
      _ ≤ ((1.9 : ℚ) ^ 3) ^ 666 := pow_le_pow_left₀ (by norm_num) (by norm_num) 666
      _ ≤ ((v ^ 10000) ^ 3) ^ 666 :=
        pow_le_pow_left₀ (by norm_num) (pow_le_pow_left₀ (by norm_num) ten 3) 666
      _ = v ^ (19980000 : ℤ) := by
        rw [← pow_mul, ← pow_mul]
        rfl
      _ ≤ v ^ n := zpow_le_zpow_right₀ one far
  have above := Machine.le_nearest (Machine.representable_two_pow 1024) power
  have infinite : Binary64.round (v ^ n) = .inf false := by
    have unbounded : ¬|Machine.nearest (v ^ n)| < Machine.overflow :=
      not_lt.mpr (above.trans (le_abs_self _))
    have positive : ¬v ^ n < 0 := not_lt.mpr (zpow_pos (by linarith) n).le
    rw [Binary64.round, dif_neg unbounded, decide_eq_false positive]
  obtain ⟨_, _, here⟩ := tick
  -- powi of the ideal library rounds the exact power
  refine Eq.trans ?_ infinite
  refine (if_neg (by omega)).trans ?_
  rw [here]
  exact if_neg fun none => (lt_of_lt_of_le one_pos one).ne' none.1

/-- At a tick inside `i32` every price of a distribution can be infinite. -/
theorem far_prices_infinite : FitsWords [] 20000000 1 1000 1 ∧ ∃ levels,
    @buildDistribution Binary64 (@Libm.tickPrice Libm.ideal) true [] 20000000 (1 : ℕ) 1000 1 =
        .ok levels ∧
      ¬levels.Pairwise fun low high => low.price < high.price := by
  have fits : FitsWords [] 20000000 1 1000 1 := by decide
  let _ : Libm := Libm.ideal
  refine ⟨fits, _, fits.built (by decide) true, ?_⟩
  intro rising
  have first : bucketMid 20000000 1 0 = 20000000 := by decide
  have second : bucketMid 20000000 1 1 = 20000001 := by decide
  rw [distribution_eq, List.pairwise_map] at rising
  have pair := List.pairwise_iff_getElem.mp rising 1 2 (by decide) (by decide) (by decide)
  simp only [List.getElem_range, bucketLevel, levelAt] at pair
  norm_num [first, second] at pair
  rw [tickPrice_infinite (by decide), tickPrice_infinite (by decide)] at pair
  exact absurd pair (by decide)

end TickLiq
