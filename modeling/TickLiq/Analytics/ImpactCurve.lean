import TickLiq.Analytics.Impact

/-!
# One curve or many buckets

The fallback of `impact` inverts the cost that `depth` reports. The walk agrees with it
as long as a trade stays in its first bucket; after that the walk pays for token A at the
higher price where the next bucket starts.
-/
namespace TickLiq

section Fallback

variable {liquidity : ℕ} {priceCurrent size : ℝ} {decimalsB : ℕ}

theorem fallbackEstimate_eq (liquid : 0 < liquidity) :
    fallbackEstimate liquidity priceCurrent size decimalsB =
      (priceAfter (invSqrtTarget liquidity priceCurrent (size * tokenScale decimalsB)),
        (priceAfter (invSqrtTarget liquidity priceCurrent (size * tokenScale decimalsB))).map
          (pctFrom priceCurrent)) := by
  have some : (liquidity : ℝ) ≠ 0 := Nat.cast_ne_zero.mpr liquid.ne'
  simp only [fallbackEstimate]
  split
  next => rfl
  next unreached =>
    have negative : ¬ 0 < invSqrtTarget liquidity priceCurrent (size * tokenScale decimalsB) :=
      fun reached => unreached ⟨some, reached⟩
    rw [priceAfter, if_neg negative]
    rfl

theorem fallbackEstimate_mono (positive : 0 < priceCurrent) {larger : ℝ} (more : size ≤ larger) :
    (fallbackEstimate liquidity priceCurrent size decimalsB).1 ≤
      (fallbackEstimate liquidity priceCurrent larger decimalsB).1 := by
  rcases Nat.eq_zero_or_pos liquidity with dry | liquid
  · simp [fallbackEstimate, dry]
  · rw [fallbackEstimate_eq liquid, fallbackEstimate_eq liquid]
    apply priceAfter_anti
    apply invSqrtTarget_le (Nat.cast_pos.mpr liquid) positive
    exact mul_le_mul_of_nonneg_right more (tokenScale_pos decimalsB).le

end Fallback

/-- Whether the tick arrays were fetched or not, a larger trade never ends at a lower price. -/
theorem impactEstimate_mono {checks : Bool} {tickDeltas : Except String (List (ℤ × ℤ))}
    {pool : ImpactPool} (positive : 0 < sqrtQ64ToPrice pool.sqrtPrice) {a b : ℝ} (nonneg : 0 ≤ a)
    (more : a ≤ b) {decimalsB : ℕ} {smaller larger : WithTop ℝ × WithTop ℝ}
    (returned : impactEstimate checks tickDeltas pool a decimalsB = .ok smaller)
    (returned' : impactEstimate checks tickDeltas pool b decimalsB = .ok larger) :
    smaller.1 ≤ larger.1 := by
  cases tickDeltas with
  | error e =>
    cases returned
    cases returned'
    exact fallbackEstimate_mono positive more
  | ok deltas =>
    obtain ⟨distribution, built, here⟩ := (Machine.bind_ok_iff ..).mp returned
    obtain ⟨again, rebuilt, there⟩ := (Machine.bind_ok_iff ..).mp returned'
    -- both trades walk the same buckets
    cases built.symm.trans rebuilt
    cases here
    cases there
    exact walkEstimate_mono positive nonneg more

/-! ### The cost that `depth` reports -/

/-- The cost of moving the price by `targetPct` percent, as `depth` prints it. -/
noncomputable def depthCost (priceCurrent : ℝ) (liquidity : ℕ) (targetPct : ℝ) (isBuy : Bool)
    (decimalsB : ℕ) : ℝ :=
  (estimateImpact priceCurrent liquidity targetPct isBuy).usdNeeded / tokenScale decimalsB

section Cost

variable {price targetPct : ℝ} {liquidity : ℕ}

theorem estimateImpact_usdNeeded :
    (estimateImpact price liquidity targetPct true).usdNeeded =
      usdFull liquidity price (price * (1 + targetPct / 100)) := rfl

theorem target_above (positive : 0 < price) {less more : ℝ} (rises : less < more) :
    price * (1 + less / 100) < price * (1 + more / 100) :=
  mul_lt_mul_of_pos_left (by linarith) positive

theorem pctFrom_target (positive : 0 < price) :
    pctFrom price (price * (1 + targetPct / 100)) = targetPct := by
  have ratio : (price * (1 + targetPct / 100) - price) / price = targetPct / 100 := by
    rw [div_eq_iff positive.ne']
    ring
  rw [pctFrom, ratio]
  ring

theorem usdFull_strictMono {l p q r : ℝ} (liquid : 0 < l) (positive : 0 < p) (rises : p ≤ q)
    (further : q < r) : usdFull l p q < usdFull l p r := by
  have falls := inv_sqrt_lt (positive.trans_le rises) further
  rw [usdFull_eq positive rises, usdFull_eq positive (rises.trans further.le)]
  exact mul_lt_mul_of_pos_right (mul_lt_mul_of_pos_left (by linarith) liquid) positive

/-- What `depth` says a move costs, `impact` says moves the price so far. -/
theorem impact_inverts_depth (positive : 0 < price) (liquid : 0 < liquidity)
    (upwards : 0 < targetPct) (decimalsB : ℕ) :
    (estimateImpact price liquidity targetPct true).targetPrice =
        price * (1 + targetPct / 100) ∧
      fallbackEstimate liquidity price (depthCost price liquidity targetPct true decimalsB)
          decimalsB =
        (((price * (1 + targetPct / 100) : ℝ) : WithTop ℝ), ((targetPct : ℝ) : WithTop ℝ)) ∧
      (∀ larger, targetPct < larger → (estimateImpact price liquidity targetPct true).usdNeeded <
        (estimateImpact price liquidity larger true).usdNeeded) ∧
      (estimateImpact price liquidity targetPct true).usdNeeded =
        liquidity * (estimateImpact price 1 targetPct true).usdNeeded := by
  have some : (0 : ℝ) < liquidity := Nat.cast_pos.mpr liquid
  have above := target_above positive upwards
  rw [zero_div, add_zero, mul_one] at above
  refine ⟨rfl, ?_, ?_, ?_⟩
  · have scale := (tokenScale_pos decimalsB).ne'
    -- the fallback walks the curve that the estimate was read off
    rw [fallbackEstimate_eq liquid, depthCost, div_mul_cancel₀ _ scale, estimateImpact_usdNeeded,
      invSqrtTarget_usdFull some positive above.le,
      priceAfter_inv_sqrt (positive.trans above), WithTop.map_coe, pctFrom_target positive]
  · intro larger more
    exact usdFull_strictMono some positive above.le (target_above positive more)
  · simp only [estimateImpact_usdNeeded, usdFull]
    push_cast
    ring

end Cost

/-- Six decimals, and a move of five percent. -/
theorem impact_inverts_depth_five :
    fallbackEstimate 1000 100 (depthCost 100 1000 5 true 6) 6 =
      (((100 * (1 + 5 / 100) : ℝ) : WithTop ℝ), ((5 : ℝ) : WithTop ℝ)) :=
  (impact_inverts_depth (by norm_num) (by decide) (by norm_num) 6).2.1

/-! ### Flat liquidity -/

/-- What the first bucket that is not skipped costs. -/
noncomputable def firstCost : List (LiquidityLevel ℝ) → ℝ → ℝ
  | [], _ => 0
  | bucket :: rest, price =>
    if bucket.liquidity = 0 ∨ bucket.price ≤ price then firstCost rest price
    else usdFull bucket.liquidity price bucket.price

theorem firstCost_skipped {bucket : LiquidityLevel ℝ} {rest : List (LiquidityLevel ℝ)} {price : ℝ}
    (skipped : Skipped bucket price) : firstCost (bucket :: rest) price = firstCost rest price :=
  if_pos skipped

theorem firstCost_taken {bucket : LiquidityLevel ℝ} {rest : List (LiquidityLevel ℝ)} {price : ℝ}
    (taken : ¬ Skipped bucket price) :
    firstCost (bucket :: rest) price = usdFull bucket.liquidity price bucket.price := if_neg taken

/-- Going on from `q`, the rest of a trade buys less than it would have at `p`. -/
theorem invSqrtTarget_lt_next {l p q usd : ℝ} (liquid : 0 < l) (positive : 0 < p) (rises : p < q)
    (more : usdFull l p q < usd) :
    invSqrtTarget l p usd < invSqrtTarget l q (usd - usdFull l p q) := by
  have reached := invSqrtTarget_usdFull liquid positive rises.le
  have dearer : (usd - usdFull l p q) / q / l < (usd - usdFull l p q) / p / l :=
    div_lt_div_of_pos_right (div_lt_div_of_pos_left (by linarith) positive rises) liquid
  have bought : (usd - usdFull l p q) / p / l = usd / p / l - usdFull l p q / p / l := by ring
  simp only [invSqrtTarget] at reached ⊢
  linarith

section Flat

variable {buckets : List (LiquidityLevel ℝ)} {liquidity : ℕ} {remaining price : ℝ}

/-- In its first bucket the walk is on the curve. -/
theorem impactWalk_eq_curve (flat : ∀ bucket ∈ buckets, bucket.liquidity = liquidity)
    (positive : 0 < price) (nonneg : 0 ≤ remaining) (within : remaining ≤ firstCost buckets price) :
    (impactWalk buckets remaining price).2 =
      priceAfter (invSqrtTarget liquidity price remaining) := by
  induction buckets with
  | nil =>
    have none : remaining = 0 := le_antisymm within nonneg
    subst none
    rw [invSqrtTarget_zero, priceAfter_inv_sqrt positive]
    rfl
  | cons bucket rest ih =>
    have later : ∀ other ∈ rest, other.liquidity = liquidity :=
      fun other member => flat other (List.mem_cons_of_mem bucket member)
    by_cases skipped : Skipped bucket price
    · rw [firstCost_skipped skipped] at within
      rw [impactWalk_skipped skipped]
      exact ih later within
    · rw [firstCost_taken skipped] at within
      rw [impactWalk_ends skipped within, flat bucket List.mem_cons_self]

variable (liquid : 0 < liquidity)
include liquid

/-- On flat liquidity the walk stays below the curve from where it starts. -/
theorem impactWalk_le_curve (flat : ∀ bucket ∈ buckets, bucket.liquidity = liquidity)
    (positive : 0 < price) (nonneg : 0 ≤ remaining) (within : remaining ≤ fullCost buckets price) :
    (impactWalk buckets remaining price).2 ≤
      priceAfter (invSqrtTarget liquidity price remaining) := by
  induction buckets generalizing remaining price with
  | nil =>
    have none : remaining = 0 := le_antisymm within nonneg
    subst none
    rw [invSqrtTarget_zero, priceAfter_inv_sqrt positive]
    rfl
  | cons bucket rest ih =>
    have later : ∀ other ∈ rest, other.liquidity = liquidity :=
      fun other member => flat other (List.mem_cons_of_mem bucket member)
    have here := flat bucket List.mem_cons_self
    by_cases skipped : Skipped bucket price
    · rw [fullCost_skipped skipped] at within
      rw [impactWalk_skipped skipped]
      exact ih later positive nonneg within
    · have above := taken_above skipped
      rw [fullCost_taken skipped] at within
      rcases le_or_gt remaining (usdFull bucket.liquidity price bucket.price) with ends | passes
      · rw [impactWalk_ends skipped ends, here]
      · rw [impactWalk_passes skipped passes]
        rw [here] at within passes ⊢
        -- the rest of the walk stays below its own curve, which starts above this one
        apply (ih later (positive.trans above) (by linarith) (by linarith)).trans
        exact priceAfter_anti
          (invSqrtTarget_lt_next (Nat.cast_pos.mpr liquid) positive above passes).le

/-- Past its first bucket the walk is strictly below the curve. -/
theorem impactWalk_lt_curve (flat : ∀ bucket ∈ buckets, bucket.liquidity = liquidity)
    (positive : 0 < price) (within : remaining ≤ fullCost buckets price)
    (past : firstCost buckets price < remaining) :
    (impactWalk buckets remaining price).2 <
      priceAfter (invSqrtTarget liquidity price remaining) := by
  induction buckets with
  | nil => exact absurd past (not_lt.mpr within)
  | cons bucket rest ih =>
    have later : ∀ other ∈ rest, other.liquidity = liquidity :=
      fun other member => flat other (List.mem_cons_of_mem bucket member)
    have here := flat bucket List.mem_cons_self
    by_cases skipped : Skipped bucket price
    · rw [firstCost_skipped skipped] at past
      rw [fullCost_skipped skipped] at within
      rw [impactWalk_skipped skipped]
      exact ih later within past
    · have above := taken_above skipped
      have start := positive.trans above
      rw [firstCost_taken skipped] at past
      rw [fullCost_taken skipped] at within
      rw [impactWalk_passes skipped past]
      rw [here] at within past ⊢
      have next := invSqrtTarget_lt_next (Nat.cast_pos.mpr liquid) positive above past
      have curve := impactWalk_le_curve liquid later start
        (show 0 ≤ remaining - usdFull liquidity price bucket.price by linarith) (by linarith)
      by_cases reached : 0 < invSqrtTarget liquidity bucket.price
          (remaining - usdFull liquidity price bucket.price)
      · exact curve.trans_lt (priceAfter_strictAnti reached next)
      · -- the curve from the start has no price left, while the walk always has one
        have real : (impactWalk rest (remaining - usdFull liquidity price bucket.price)
            bucket.price).2 ≠ ⊤ := (impactWalk_reaches start (by linarith)).2
        have unbounded : ¬ 0 < invSqrtTarget liquidity price remaining := by linarith
        rw [priceAfter, if_neg unbounded]
        exact lt_top_iff_ne_top.mpr real

end Flat

/-- On flat liquidity the walk gives the fallback's price exactly for the trades that its first
bucket absorbs, and a lower one for the larger trades. -/
theorem walk_fallback_flat {buckets : List (LiquidityLevel ℝ)} {liquidity : ℕ}
    (liquid : 0 < liquidity) (flat : ∀ bucket ∈ buckets, bucket.liquidity = liquidity)
    {priceCurrent size : ℝ} (positive : 0 < priceCurrent) (nonneg : 0 ≤ size) (decimalsB : ℕ)
    (within : size * tokenScale decimalsB ≤ fullCost buckets priceCurrent) :
    (walkEstimate buckets priceCurrent size decimalsB =
        fallbackEstimate liquidity priceCurrent size decimalsB ↔
      size * tokenScale decimalsB ≤ firstCost buckets priceCurrent) ∧
    (firstCost buckets priceCurrent < size * tokenScale decimalsB →
      (walkEstimate buckets priceCurrent size decimalsB).1 <
        (fallbackEstimate liquidity priceCurrent size decimalsB).1) := by
  have below : firstCost buckets priceCurrent < size * tokenScale decimalsB →
      (walkEstimate buckets priceCurrent size decimalsB).1 <
        (fallbackEstimate liquidity priceCurrent size decimalsB).1 := by
    intro past
    rw [walkEstimate_absorbed positive nonneg within, fallbackEstimate_eq liquid]
    exact impactWalk_lt_curve liquid flat positive within past
  refine ⟨⟨?_, ?_⟩, below⟩
  · intro agree
    by_contra past
    exact absurd (congrArg Prod.fst agree) (below (not_le.mp past)).ne
  · intro first
    rw [walkEstimate_absorbed positive nonneg within, fallbackEstimate_eq liquid,
      impactWalk_eq_curve flat positive (scaled_nonneg nonneg decimalsB) first]

/-! ### Two buckets of one liquidity -/

noncomputable def flatPair : List (LiquidityLevel ℝ) := [⟨(4 : ℕ), 100⟩, ⟨(16 : ℕ), 100⟩]

theorem flatPair_costs : firstCost flatPair 1 = 50 ∧ fullCost flatPair 1 = 150 := by
  have first : usdFull 100 1 4 = 50 := by
    rw [usdFull_eq one_pos (by norm_num), sqrt_four, Real.sqrt_one]
    norm_num
  have second : usdFull 100 4 16 = 100 := by
    rw [usdFull_eq (by norm_num) (by norm_num), sqrt_four, sqrt_sixteen]
    norm_num
  constructor
  · norm_num [flatPair, firstCost, first]
  · norm_num [flatPair, fullCost, first, second]

theorem walk_fallback_flat_first : walkEstimate flatPair 1 40 0 = fallbackEstimate 100 1 40 0 := by
  have flat : ∀ bucket ∈ flatPair, bucket.liquidity = 100 := by simp [flatPair]
  obtain ⟨first, full⟩ := flatPair_costs
  apply (walk_fallback_flat (by norm_num) flat one_pos (by norm_num) 0 _).1.mpr
  · rw [first, tokenScale_zero]
    norm_num
  · rw [full, tokenScale_zero]
    norm_num

/-- 60 takes the walk into the second bucket, where token A costs 4 instead of 1. -/
theorem walk_fallback_differ : (60 : ℝ) * tokenScale 0 ≤ fullCost flatPair 1 ∧
    walkEstimate flatPair 1 60 0 ≠ fallbackEstimate 100 1 60 0 := by
  have flat : ∀ bucket ∈ flatPair, bucket.liquidity = 100 := by simp [flatPair]
  obtain ⟨first, full⟩ := flatPair_costs
  have within : (60 : ℝ) * tokenScale 0 ≤ fullCost flatPair 1 := by
    rw [full, tokenScale_zero]
    norm_num
  refine ⟨within, ?_⟩
  intro agree
  rw [walkEstimate_absorbed one_pos (by norm_num) within,
    fallbackEstimate_eq (by norm_num)] at agree
  apply absurd (congrArg Prod.fst agree)
  apply (impactWalk_lt_curve (by norm_num) flat one_pos within _).ne
  rw [first, tokenScale_zero]
  norm_num

end TickLiq
