import Mathlib.Data.List.Pairwise
import TickLiq.Analytics.Depth
import TickLiq.Math.Impact
import TickLiq.Math.SqrtPrice

/-!
# The price after a trade

`impact` walks the buckets above the current price and pays for each at the price where
it starts. Without tick arrays it falls back to one curve from the current price.
-/
namespace TickLiq

open Machine (Panic)

/-- The walk: what is left of the trade, and the price reached. -/
noncomputable def impactWalk : List (LiquidityLevel ℝ) → ℝ → ℝ → ℝ × WithTop ℝ
  | [], remaining, finalPrice => (remaining, finalPrice)
  | bucket :: rest, remaining, finalPrice =>
    let l : ℝ := bucket.liquidity
    if l = 0 then impactWalk rest remaining finalPrice
    else
      let pStart := finalPrice
      let pEnd := bucket.price
      if pEnd ≤ pStart then impactWalk rest remaining finalPrice
      else if remaining ≤ usdFull l pStart pEnd then
        -- the trade ends inside this bucket
        (0, priceAfter (invSqrtTarget l pStart remaining))
      else impactWalk rest (remaining - usdFull l pStart pEnd) pEnd

noncomputable def pctFrom (priceCurrent price : ℝ) : ℝ :=
  (price - priceCurrent) / priceCurrent * (100 : ℕ)

/-- `target_price` and `impact_pct` from the buckets. -/
noncomputable def walkEstimate (buckets : List (LiquidityLevel ℝ)) (priceCurrent size : ℝ)
    (decimalsB : ℕ) : WithTop ℝ × WithTop ℝ :=
  let (remaining, finalPrice) := impactWalk buckets (size * tokenScale decimalsB) priceCurrent
  if 0 < remaining then (⊤, ⊤) else (finalPrice, finalPrice.map (pctFrom priceCurrent))

/-- `target_price` and `impact_pct` of the constant-liquidity approximation. -/
noncomputable def fallbackEstimate (liquidity : ℕ) (priceCurrent size : ℝ) (decimalsB : ℕ) :
    WithTop ℝ × WithTop ℝ :=
  let l : ℝ := liquidity
  let usd := size * tokenScale decimalsB
  -- over no liquidity the quotient is infinite or not a number, and the test fails
  if l ≠ 0 ∧ 0 < invSqrtTarget l priceCurrent usd then
    let target := priceAfter (invSqrtTarget l priceCurrent usd)
    (target, target.map (pctFrom priceCurrent))
  else (⊤, ⊤)

/-- The fields of the pool that `impact` reads. -/
structure ImpactPool where
  sqrtPrice : ℕ
  liquidity : ℕ
  tickCurrentIndex : ℤ
  tickSpacing : ℤ

/-- What `impact` prints, from the ticks of the arrays or from the failure to fetch them. -/
noncomputable def impactEstimate (checks : Bool) (tickDeltas : Except String (List (ℤ × ℤ)))
    (pool : ImpactPool) (size : ℝ) (decimalsB : ℕ) : Except Panic (WithTop ℝ × WithTop ℝ) :=
  let priceCurrent := sqrtQ64ToPrice pool.sqrtPrice
  match tickDeltas with
  | .ok tickDeltas => do
    let distribution ← buildDistribution checks tickDeltas pool.tickCurrentIndex pool.tickSpacing
      pool.liquidity 16
    let mid := distribution.length / 2
    return walkEstimate (distribution.drop mid) priceCurrent size decimalsB
  | .error _ => return fallbackEstimate pool.liquidity priceCurrent size decimalsB

/-! ### One bucket -/

def Skipped (bucket : LiquidityLevel ℝ) (price : ℝ) : Prop :=
  bucket.liquidity = 0 ∨ bucket.price ≤ price

/-- What the buckets that are not skipped cost, each from the end of the one before. -/
noncomputable def fullCost : List (LiquidityLevel ℝ) → ℝ → ℝ
  | [], _ => 0
  | bucket :: rest, price =>
    if bucket.liquidity = 0 ∨ bucket.price ≤ price then fullCost rest price
    else usdFull bucket.liquidity price bucket.price + fullCost rest bucket.price

section Walk

variable {bucket : LiquidityLevel ℝ} {rest : List (LiquidityLevel ℝ)} {remaining price : ℝ}

theorem impactWalk_skipped (skipped : Skipped bucket price) :
    impactWalk (bucket :: rest) remaining price = impactWalk rest remaining price := by
  rcases skipped with dry | passed
  · simp [impactWalk, dry]
  · simp [impactWalk, passed]

theorem fullCost_skipped (skipped : Skipped bucket price) :
    fullCost (bucket :: rest) price = fullCost rest price := if_pos skipped

theorem fullCost_taken (taken : ¬ Skipped bucket price) : fullCost (bucket :: rest) price =
    usdFull bucket.liquidity price bucket.price + fullCost rest bucket.price := if_neg taken

theorem taken_liquid (taken : ¬ Skipped bucket price) : (0 : ℝ) < bucket.liquidity :=
  Nat.cast_pos.mpr (Nat.pos_of_ne_zero fun dry => taken (Or.inl dry))

theorem taken_above (taken : ¬ Skipped bucket price) : price < bucket.price :=
  not_le.mp fun passed => taken (Or.inr passed)

theorem impactWalk_ends (taken : ¬ Skipped bucket price)
    (ends : remaining ≤ usdFull bucket.liquidity price bucket.price) :
    impactWalk (bucket :: rest) remaining price =
      (0, priceAfter (invSqrtTarget bucket.liquidity price remaining)) := by
  have liquid := (taken_liquid taken).ne'
  have above := not_le.mpr (taken_above taken)
  simp only [impactWalk, if_neg liquid, if_neg above, if_pos ends]

theorem impactWalk_passes (taken : ¬ Skipped bucket price)
    (passes : usdFull bucket.liquidity price bucket.price < remaining) :
    impactWalk (bucket :: rest) remaining price =
      impactWalk rest (remaining - usdFull bucket.liquidity price bucket.price) bucket.price := by
  have liquid := (taken_liquid taken).ne'
  have above := not_le.mpr (taken_above taken)
  simp only [impactWalk, if_neg liquid, if_neg above, if_neg (not_le.mpr passes)]

/-- A trade that ends inside a bucket leaves the price between the bucket's ends. -/
theorem ends_between (taken : ¬ Skipped bucket price) (positive : 0 < price)
    (nonneg : 0 ≤ remaining)
    (ends : remaining ≤ usdFull bucket.liquidity price bucket.price) :
    (price : WithTop ℝ) ≤ priceAfter (invSqrtTarget bucket.liquidity price remaining) ∧
      priceAfter (invSqrtTarget bucket.liquidity price remaining) ≤ bucket.price := by
  have liquid := taken_liquid taken
  have above := taken_above taken
  constructor
  · rw [← priceAfter_inv_sqrt positive, ← invSqrtTarget_zero (l := bucket.liquidity)]
    exact priceAfter_anti (invSqrtTarget_le liquid positive nonneg)
  · rw [← priceAfter_inv_sqrt (positive.trans above),
      ← invSqrtTarget_usdFull liquid positive above.le]
    exact priceAfter_anti (invSqrtTarget_le liquid positive ends)

end Walk

/-! ### The whole walk -/

section Run

variable {remaining price : ℝ}

theorem fullCost_nonneg (buckets : List (LiquidityLevel ℝ)) (positive : 0 < price) :
    0 ≤ fullCost buckets price := by
  induction buckets generalizing price with
  | nil => exact le_rfl
  | cons bucket rest ih =>
    by_cases skipped : Skipped bucket price
    · rw [fullCost_skipped skipped]
      exact ih positive
    · have above := taken_above skipped
      rw [fullCost_taken skipped]
      exact add_nonneg (usdFull_pos (taken_liquid skipped) positive above).le
        (ih (positive.trans above))

/-- What is left is what the buckets do not cost. -/
theorem impactWalk_remaining (buckets : List (LiquidityLevel ℝ)) (positive : 0 < price)
    (nonneg : 0 ≤ remaining) :
    (impactWalk buckets remaining price).1 = max 0 (remaining - fullCost buckets price) := by
  induction buckets generalizing remaining price with
  | nil => simp [impactWalk, fullCost, nonneg]
  | cons bucket rest ih =>
    by_cases skipped : Skipped bucket price
    · rw [impactWalk_skipped skipped, fullCost_skipped skipped]
      exact ih positive nonneg
    · have above := positive.trans (taken_above skipped)
      have further := fullCost_nonneg rest above
      rw [fullCost_taken skipped]
      rcases le_or_gt remaining (usdFull bucket.liquidity price bucket.price) with ends | passes
      · rw [impactWalk_ends skipped ends, max_eq_left (by linarith)]
      · rw [impactWalk_passes skipped passes, ih above (by linarith), sub_sub]

variable {buckets : List (LiquidityLevel ℝ)}

/-- The walk reaches a price, not below where it starts. -/
theorem impactWalk_reaches (positive : 0 < price) (nonneg : 0 ≤ remaining) :
    (price : WithTop ℝ) ≤ (impactWalk buckets remaining price).2 ∧
      (impactWalk buckets remaining price).2 ≠ ⊤ := by
  induction buckets generalizing remaining price with
  | nil => exact ⟨le_rfl, WithTop.coe_ne_top⟩
  | cons bucket rest ih =>
    by_cases skipped : Skipped bucket price
    · rw [impactWalk_skipped skipped]
      exact ih positive nonneg
    · have above := taken_above skipped
      rcases le_or_gt remaining (usdFull bucket.liquidity price bucket.price) with ends | passes
      · obtain ⟨lower, upper⟩ := ends_between skipped positive nonneg ends
        rw [impactWalk_ends skipped ends]
        exact ⟨lower, ne_top_of_le_ne_top WithTop.coe_ne_top upper⟩
      · obtain ⟨lower, real⟩ := ih (positive.trans above)
          (show 0 ≤ remaining - usdFull bucket.liquidity price bucket.price by linarith)
        rw [impactWalk_passes skipped passes]
        exact ⟨(WithTop.coe_le_coe.mpr above.le).trans lower, real⟩

theorem impactWalk_le {bound : ℝ} (positive : 0 < price) (nonneg : 0 ≤ remaining)
    (start : price ≤ bound) (below : ∀ bucket ∈ buckets, bucket.price ≤ bound) :
    (impactWalk buckets remaining price).2 ≤ bound := by
  induction buckets generalizing remaining price with
  | nil => exact WithTop.coe_le_coe.mpr start
  | cons bucket rest ih =>
    have later : ∀ other ∈ rest, other.price ≤ bound :=
      fun other member => below other (List.mem_cons_of_mem bucket member)
    by_cases skipped : Skipped bucket price
    · rw [impactWalk_skipped skipped]
      exact ih positive nonneg start later
    · have here := below bucket List.mem_cons_self
      rcases le_or_gt remaining (usdFull bucket.liquidity price bucket.price) with ends | passes
      · rw [impactWalk_ends skipped ends]
        exact (ends_between skipped positive nonneg ends).2.trans (WithTop.coe_le_coe.mpr here)
      · rw [impactWalk_passes skipped passes]
        exact ih (positive.trans (taken_above skipped)) (by linarith) here later

/-- A larger trade moves the price at least as far. -/
theorem impactWalk_mono (positive : 0 < price) {a b : ℝ} (nonneg : 0 ≤ a) (more : a ≤ b) :
    (impactWalk buckets a price).2 ≤ (impactWalk buckets b price).2 := by
  induction buckets generalizing a b price with
  | nil => exact le_rfl
  | cons bucket rest ih =>
    by_cases skipped : Skipped bucket price
    · rw [impactWalk_skipped skipped, impactWalk_skipped skipped]
      exact ih positive nonneg more
    · have liquid := taken_liquid skipped
      have above := positive.trans (taken_above skipped)
      rcases le_or_gt b (usdFull bucket.liquidity price bucket.price) with ends | passes
      · rw [impactWalk_ends skipped ends, impactWalk_ends skipped (more.trans ends)]
        exact priceAfter_anti (invSqrtTarget_le liquid positive more)
      · rw [impactWalk_passes skipped passes]
        rcases le_or_gt a (usdFull bucket.liquidity price bucket.price) with stays | leaves
        · -- the smaller trade stops before the price that the larger one goes on from
          rw [impactWalk_ends skipped stays]
          exact (ends_between skipped positive nonneg stays).2.trans
            (impactWalk_reaches above (by linarith)).1
        · rw [impactWalk_passes skipped leaves]
          exact ih above (by linarith) (by linarith)

end Run

section Estimate

variable {buckets : List (LiquidityLevel ℝ)} {priceCurrent size : ℝ} {decimalsB : ℕ}

theorem scaled_nonneg (nonneg : 0 ≤ size) (decimalsB : ℕ) : 0 ≤ size * tokenScale decimalsB :=
  mul_nonneg nonneg (tokenScale_pos decimalsB).le

variable (positive : 0 < priceCurrent) (nonneg : 0 ≤ size)
include positive nonneg

theorem walkEstimate_exhausted
    (beyond : fullCost buckets priceCurrent < size * tokenScale decimalsB) :
    walkEstimate buckets priceCurrent size decimalsB = (⊤, ⊤) := by
  have left := impactWalk_remaining buckets positive (scaled_nonneg nonneg decimalsB)
  have some : 0 < (impactWalk buckets (size * tokenScale decimalsB) priceCurrent).1 := by
    rw [left]
    exact lt_max_of_lt_right (by linarith)
  simp only [walkEstimate, if_pos some]

theorem walkEstimate_absorbed
    (within : size * tokenScale decimalsB ≤ fullCost buckets priceCurrent) :
    walkEstimate buckets priceCurrent size decimalsB =
      ((impactWalk buckets (size * tokenScale decimalsB) priceCurrent).2,
        (impactWalk buckets (size * tokenScale decimalsB) priceCurrent).2.map
          (pctFrom priceCurrent)) := by
  have left := impactWalk_remaining buckets positive (scaled_nonneg nonneg decimalsB)
  rw [max_eq_left (by linarith)] at left
  simp only [walkEstimate, left, lt_irrefl, if_false]

/-- The walk reports exhaustion exactly beyond what its buckets cost. -/
theorem walkEstimate_exhausted_iff : (walkEstimate buckets priceCurrent size decimalsB).1 = ⊤ ↔
    fullCost buckets priceCurrent < size * tokenScale decimalsB := by
  rcases le_or_gt (size * tokenScale decimalsB) (fullCost buckets priceCurrent) with within | beyond
  · rw [walkEstimate_absorbed positive nonneg within]
    simp [within, (impactWalk_reaches positive (scaled_nonneg nonneg decimalsB)).2]
  · rw [walkEstimate_exhausted positive nonneg beyond]
    simp [beyond]

theorem walkEstimate_ge :
    (priceCurrent : WithTop ℝ) ≤ (walkEstimate buckets priceCurrent size decimalsB).1 := by
  rcases le_or_gt (size * tokenScale decimalsB) (fullCost buckets priceCurrent) with within | beyond
  · rw [walkEstimate_absorbed positive nonneg within]
    exact (impactWalk_reaches positive (scaled_nonneg nonneg decimalsB)).1
  · rw [walkEstimate_exhausted positive nonneg beyond]
    exact le_top

theorem walkEstimate_mono {larger : ℝ} (more : size ≤ larger) :
    (walkEstimate buckets priceCurrent size decimalsB).1 ≤
      (walkEstimate buckets priceCurrent larger decimalsB).1 := by
  have scaled : size * tokenScale decimalsB ≤ larger * tokenScale decimalsB :=
    mul_le_mul_of_nonneg_right more (tokenScale_pos decimalsB).le
  rcases le_or_gt (larger * tokenScale decimalsB) (fullCost buckets priceCurrent) with within | beyond
  · rw [walkEstimate_absorbed positive (nonneg.trans more) within,
      walkEstimate_absorbed positive nonneg (scaled.trans within)]
    exact impactWalk_mono positive (scaled_nonneg nonneg decimalsB) scaled
  · rw [walkEstimate_exhausted positive (nonneg.trans more) beyond]
    exact le_top

end Estimate

/-- The price of the last bucket, or the given one where there is none. -/
def lastPrice (buckets : List (LiquidityLevel ℝ)) (price : ℝ) : ℝ :=
  (buckets.getLast?.map LiquidityLevel.price).getD price

theorem le_lastPrice {buckets : List (LiquidityLevel ℝ)} {price : ℝ}
    (increasing : buckets.Pairwise fun low high => low.price < high.price) {bucket : LiquidityLevel ℝ}
    (member : bucket ∈ buckets) : bucket.price ≤ lastPrice buckets price := by
  rcases List.eq_nil_or_concat buckets with empty | ⟨before, last, split⟩
  · simp [empty] at member
  · rw [List.concat_eq_append] at split
    subst split
    have reached : lastPrice (before ++ [last]) price = last.price := by simp [lastPrice]
    rw [reached]
    rcases List.mem_append.mp member with earlier | final
    · exact ((List.pairwise_append.mp increasing).2.2 bucket earlier last (by simp)).le
    · rw [List.mem_singleton.mp final]

/-- A larger trade never ends at a lower price, exhaustion is reported exactly beyond the cost of
all buckets, and short of it the price stays within the buckets. -/
theorem walkEstimate_monotone_exact {buckets : List (LiquidityLevel ℝ)}
    (increasing : buckets.Pairwise fun low high => low.price < high.price) {priceCurrent a b : ℝ}
    (positive : 0 < priceCurrent) (nonneg : 0 ≤ a) (more : a ≤ b) (decimalsB : ℕ) :
    (walkEstimate buckets priceCurrent a decimalsB).1 ≤
        (walkEstimate buckets priceCurrent b decimalsB).1 ∧
      (priceCurrent : WithTop ℝ) ≤ (walkEstimate buckets priceCurrent a decimalsB).1 ∧
      ((walkEstimate buckets priceCurrent a decimalsB).1 = ⊤ ↔
        fullCost buckets priceCurrent < a * tokenScale decimalsB) ∧
      ((walkEstimate buckets priceCurrent a decimalsB).1 ≠ ⊤ →
        (walkEstimate buckets priceCurrent a decimalsB).1 ≤
          (max priceCurrent (lastPrice buckets priceCurrent) : ℝ)) ∧
      (impactWalk buckets (a * tokenScale decimalsB) priceCurrent).2 ≠ ⊤ := by
  refine ⟨walkEstimate_mono positive nonneg more, walkEstimate_ge positive nonneg,
    walkEstimate_exhausted_iff positive nonneg, ?_,
    (impactWalk_reaches positive (scaled_nonneg nonneg decimalsB)).2⟩
  intro absorbed
  have within : a * tokenScale decimalsB ≤ fullCost buckets priceCurrent :=
    not_lt.mp fun beyond => absorbed ((walkEstimate_exhausted_iff positive nonneg).mpr beyond)
  rw [walkEstimate_absorbed positive nonneg within]
  apply impactWalk_le positive (scaled_nonneg nonneg decimalsB) (le_max_left ..)
  intro bucket member
  exact (le_lastPrice increasing member).trans (le_max_right ..)

/-- A dry bucket between two that hold liquidity. -/
noncomputable def dryMiddle : List (LiquidityLevel ℝ) :=
  [⟨(4 : ℕ), 100⟩, ⟨(9 : ℕ), 0⟩, ⟨(16 : ℕ), 200⟩]

theorem sqrt_four : √(4 : ℝ) = 2 := by
  rw [show (4 : ℝ) = 2 * 2 by norm_num, Real.sqrt_mul_self (by norm_num)]

theorem sqrt_sixteen : √(16 : ℝ) = 4 := by
  rw [show (16 : ℝ) = 4 * 4 by norm_num, Real.sqrt_mul_self (by norm_num)]

theorem tokenScale_zero : tokenScale 0 = 1 := by simp [tokenScale]

theorem dryMiddle_cost : fullCost dryMiddle 1 = 250 := by
  have first : usdFull 100 1 4 = 50 := by
    rw [usdFull_eq one_pos (by norm_num), sqrt_four, Real.sqrt_one]
    norm_num
  have last : usdFull 200 4 16 = 200 := by
    rw [usdFull_eq (by norm_num) (by norm_num), sqrt_four, sqrt_sixteen]
    norm_num
  norm_num [dryMiddle, fullCost, first, last]

/-- 60 ends past the dry bucket, and 300 exhausts all three. -/
theorem walkEstimate_monotone_exact_dry :
    (walkEstimate dryMiddle 1 60 0).1 ≤ (walkEstimate dryMiddle 1 300 0).1 ∧
      ((1 : ℝ) : WithTop ℝ) ≤ (walkEstimate dryMiddle 1 60 0).1 ∧
      (walkEstimate dryMiddle 1 60 0).1 ≠ ⊤ ∧ (walkEstimate dryMiddle 1 300 0).1 = ⊤ ∧
      (walkEstimate dryMiddle 1 60 0).1 ≤ ((16 : ℝ) : WithTop ℝ) ∧
      (impactWalk dryMiddle 60 1).2 ≠ ⊤ := by
  have increasing : dryMiddle.Pairwise fun low high => low.price < high.price := by
    simp only [dryMiddle, List.pairwise_cons, List.mem_cons, List.not_mem_nil, or_false]
    norm_num
  obtain ⟨monotone, above, exhausted, within, ends⟩ := walkEstimate_monotone_exact increasing
    one_pos (show (0 : ℝ) ≤ 60 by norm_num) (show (60 : ℝ) ≤ 300 by norm_num) 0
  obtain ⟨-, -, exhaustedAll, -, -⟩ := walkEstimate_monotone_exact increasing
    one_pos (show (0 : ℝ) ≤ 300 by norm_num) le_rfl 0
  rw [dryMiddle_cost, tokenScale_zero] at exhausted exhaustedAll
  rw [tokenScale_zero, mul_one] at ends
  have absorbed : (walkEstimate dryMiddle 1 60 0).1 ≠ ⊤ := by
    rw [Ne, exhausted]
    norm_num
  have last : max 1 (lastPrice dryMiddle 1) = 16 := by
    norm_num [lastPrice, dryMiddle]
  have below := within absorbed
  rw [last] at below
  exact ⟨monotone, above, absorbed, exhaustedAll.mpr (by norm_num), below, ends⟩

end TickLiq
