import Mathlib.Algebra.Order.Field.Basic
import Mathlib.Algebra.Order.Group.MinMax
import Mathlib.Tactic.FieldSimp
import Mathlib.Tactic.Linarith
import Mathlib.Tactic.Positivity
import Mathlib.Tactic.Ring

/-!
# Holdings of a unit of concentrated liquidity

Between the roots `pa` and `pb` a unit of liquidity at root price `s` holds
`1 / s - 1 / pb` of the first token and `s - pa` of the second. Outside them it
holds what it held at the nearer one.
-/
namespace Machine

section Clamp

variable {α : Type*} [LinearOrder α]

/-- The nearest point of `[pa, pb]`. -/
def clampTo (pa pb r : α) : α := min (max r pa) pb

theorem clampTo_le (pa pb r : α) : clampTo pa pb r ≤ pb := min_le_right _ _

theorem le_clampTo {pa pb : α} (r : α) (ordered : pa ≤ pb) : pa ≤ clampTo pa pb r :=
  le_min (le_max_right _ _) ordered

theorem clampTo_mono (pa pb : α) {r q : α} (below : r ≤ q) : clampTo pa pb r ≤ clampTo pa pb q :=
  min_le_min_right pb (max_le_max_right pa below)

/-- A clamped root that another point of the range exceeds was not cut from above. -/
theorem clampTo_le_of_lt {pa pb r s : α} (above : clampTo pa pb r < s) (inside : s ≤ pb) :
    r ≤ clampTo pa pb r := by
  rcases min_choice (max r pa) pb with chosen | chosen
  · rw [clampTo, chosen]
    exact le_max_left _ _
  · rw [clampTo, chosen] at above
    exact absurd inside (not_le.mpr above)

theorem le_clampTo_of_lt {pa pb r s : α} (below : s < clampTo pa pb r) (inside : pa ≤ s) :
    clampTo pa pb r ≤ r := by
  have left : clampTo pa pb r ≤ max r pa := min_le_left _ _
  rcases max_choice r pa with chosen | chosen
  · rwa [chosen] at left
  · rw [chosen] at left
    exact absurd (below.trans_le left) (not_lt.mpr inside)

end Clamp

variable {K : Type*} [Field K]

/-- Amount of the first token held at root price `s`. -/
def firstHolding (pb s : K) : K := 1 / s - 1 / pb

/-- Amount of the second token held at root price `s`. -/
def secondHolding (pa s : K) : K := s - pa

/-- What the holdings taken at root price `s` are worth at `price`. -/
def holdingsValue (pa pb s price : K) : K := firstHolding pb s * price + secondHolding pa s

/-- Moving the holdings from `t` to `s` changes their worth by one signed product. -/
theorem holdingsValue_sub (pa pb price : K) {s t : K} (source : s ≠ 0) (target : t ≠ 0) :
    holdingsValue pa pb s price - holdingsValue pa pb t price =
      (s - t) * (s * t - price) / (s * t) := by
  simp only [holdingsValue, firstHolding, secondHolding]
  field_simp
  ring

/-- Two portfolios compared at two prices: only the crossed amounts are left. -/
theorem holdingsValue_cross (pa pb s t price later : K) :
    holdingsValue pa pb s later * holdingsValue pa pb t price -
        holdingsValue pa pb s price * holdingsValue pa pb t later =
      (firstHolding pb s * secondHolding pa t - firstHolding pb t * secondHolding pa s) *
        (later - price) := by
  simp only [holdingsValue]
  ring

theorem holdingsValue_scaled (pa pb s price : K) {m : K} (scale : m ≠ 0) :
    holdingsValue (m * pa) (m * pb) (m * s) (m * m * price) = m * holdingsValue pa pb s price := by
  have first : firstHolding (m * pb) (m * s) * (m * m) = m * firstHolding pb s := by
    simp only [firstHolding, one_div, mul_inv]
    field_simp
  calc firstHolding (m * pb) (m * s) * (m * m * price) + secondHolding (m * pa) (m * s)
      = firstHolding (m * pb) (m * s) * (m * m) * price + secondHolding (m * pa) (m * s) := by ring
    _ = m * holdingsValue pa pb s price := by
        rw [first]
        simp only [holdingsValue, secondHolding]
        ring

/-- With the roots inverted and swapped the two tokens change roles. -/
theorem holdingsValue_inverted (pa pb s : K) {price : K} (positive : price ≠ 0) :
    holdingsValue (1 / pb) (1 / pa) (1 / s) (1 / price) = holdingsValue pa pb s price / price := by
  simp only [holdingsValue, firstHolding, secondHolding, one_div, inv_inv]
  field_simp
  ring

variable [LinearOrder K] [IsStrictOrderedRing K]

theorem clampTo_scaled (pa pb r : K) {m : K} (scale : 0 < m) :
    clampTo (m * pa) (m * pb) (m * r) = m * clampTo pa pb r := by
  simp only [clampTo]
  rw [← mul_max_of_nonneg _ _ scale.le, ← mul_min_of_nonneg _ _ scale.le]

theorem clampTo_inverted {pa pb r : K} (lower : 0 < pa) (ordered : pa ≤ pb) (root : 0 < r) :
    clampTo (1 / pb) (1 / pa) (1 / r) = 1 / clampTo pa pb r := by
  have upper : 0 < pb := lower.trans_le ordered
  simp only [clampTo]
  rcases le_total r pa with below | inside
  · have flipped := one_div_le_one_div_of_le root below
    rw [max_eq_right below, min_eq_left ordered,
      max_eq_left ((one_div_le_one_div_of_le lower ordered).trans flipped), min_eq_right flipped]
  · rw [max_eq_left inside]
    rcases le_total r pb with under | past
    · rw [min_eq_left under, max_eq_left (one_div_le_one_div_of_le root under),
        min_eq_left (one_div_le_one_div_of_le lower inside)]
    · rw [min_eq_right past, max_eq_right (one_div_le_one_div_of_le upper past),
        min_eq_left (one_div_le_one_div_of_le lower ordered)]

section InRange

variable {pa pb s t : K}

theorem firstHolding_nonneg (root : 0 < s) (inside : s ≤ pb) : 0 ≤ firstHolding pb s :=
  sub_nonneg.mpr (one_div_le_one_div_of_le root inside)

theorem secondHolding_nonneg (inside : pa ≤ s) : 0 ≤ secondHolding pa s :=
  sub_nonneg.mpr inside

theorem holdingsValue_nonneg {price : K} (lower : 0 < pa) (left : pa ≤ s) (right : s ≤ pb)
    (positive : 0 ≤ price) : 0 ≤ holdingsValue pa pb s price :=
  add_nonneg (mul_nonneg (firstHolding_nonneg (lower.trans_le left) right) positive)
    (secondHolding_nonneg left)

/-- At no root price are both amounts zero. -/
theorem holdingsValue_pos {price : K} (lower : 0 < pa) (ordered : pa < pb) (left : pa ≤ s)
    (right : s ≤ pb) (positive : 0 < price) : 0 < holdingsValue pa pb s price := by
  have root : 0 < s := lower.trans_le left
  rcases right.lt_or_eq with inside | bound
  · have first : 0 < firstHolding pb s := sub_pos.mpr (one_div_lt_one_div_of_lt root inside)
    exact add_pos_of_pos_of_nonneg (mul_pos first positive) (secondHolding_nonneg left)
  · have second : 0 < secondHolding pa s := sub_pos.mpr (bound ▸ ordered)
    exact add_pos_of_nonneg_of_pos (mul_nonneg (firstHolding_nonneg root right) positive.le) second

/-- A higher root price holds relatively more of the second token. -/
theorem holdings_cross_le (lower : 0 < pa) (left : pa ≤ s) (right : t ≤ pb) (below : s ≤ t) :
    firstHolding pb t * secondHolding pa s ≤ firstHolding pb s * secondHolding pa t := by
  have root : 0 < s := lower.trans_le left
  have less : firstHolding pb t ≤ firstHolding pb s :=
    sub_le_sub_right (one_div_le_one_div_of_le root below) _
  have more : secondHolding pa s ≤ secondHolding pa t := sub_le_sub_right below _
  exact mul_le_mul less more (secondHolding_nonneg left)
    (firstHolding_nonneg root (below.trans right))

/-- Of all holdings in the range, those at the clamped root are worth least at its price. -/
theorem holdingsValue_clampTo_lt {r : K} (lower : 0 < pa) (root : 0 ≤ r) (left : pa ≤ s)
    (right : s ≤ pb) (moved : s ≠ clampTo pa pb r) :
    holdingsValue pa pb (clampTo pa pb r) (r * r) < holdingsValue pa pb s (r * r) := by
  have source : 0 < s := lower.trans_le left
  have target : 0 < clampTo pa pb r := lower.trans_le (le_clampTo r (left.trans right))
  have gap := holdingsValue_sub pa pb (r * r) source.ne' target.ne'
  -- both factors of the gap change sign at the clamped root
  have product : 0 < (s - clampTo pa pb r) * (s * clampTo pa pb r - r * r) := by
    rcases moved.lt_or_gt with below | above
    · have under : clampTo pa pb r ≤ r := le_clampTo_of_lt below left
      have square : s * clampTo pa pb r < r * r :=
        mul_lt_mul (below.trans_le under) under target root
      exact mul_pos_of_neg_of_neg (sub_neg.mpr below) (sub_neg.mpr square)
    · have past : r ≤ clampTo pa pb r := clampTo_le_of_lt above right
      have square : r * r < s * clampTo pa pb r :=
        (mul_le_mul past past root target.le).trans_lt (mul_lt_mul_of_pos_right above target)
      exact mul_pos (sub_pos.mpr above) (sub_pos.mpr square)
  exact sub_pos.mp (gap ▸ div_pos product (mul_pos source target))

theorem holdingsValue_clampTo_le {r : K} (lower : 0 < pa) (root : 0 ≤ r) (left : pa ≤ s)
    (right : s ≤ pb) :
    holdingsValue pa pb (clampTo pa pb r) (r * r) ≤ holdingsValue pa pb s (r * r) := by
  by_cases same : s = clampTo pa pb r
  · rw [← same]
  · exact (holdingsValue_clampTo_lt lower root left right same).le

/-- Worth relative to `s` falls wherever the crossed amounts and the move have opposite signs. -/
theorem holdingsValue_ratio_le {price later : K} (before : 0 < holdingsValue pa pb s price)
    (after : 0 < holdingsValue pa pb s later)
    (turned : (firstHolding pb t * secondHolding pa s - firstHolding pb s * secondHolding pa t) *
      (later - price) ≤ 0) :
    holdingsValue pa pb t later / holdingsValue pa pb s later ≤
      holdingsValue pa pb t price / holdingsValue pa pb s price := by
  rw [div_le_div_iff₀ after before]
  exact sub_nonpos.mp (holdingsValue_cross pa pb t s price later ▸ turned)

end InRange

end Machine
