import Mathlib.Analysis.SpecialFunctions.Log.Basic
import TickLiq.Machine.Checked
import TickLiq.Math.F64

/-!
# Prices as ticks

`price_to_tick` floors the logarithm of a price to a tick and the tick to the
spacing. The cast from a float saturates, and the product may leave `i32`.
-/
namespace TickLiq

open Machine (Panic InRange mulChecked divEuclid divEuclid_positive checked_unchecked)

/-- `f as i32` for a finite `f`. -/
noncomputable def castI32 (f : ℝ) : ℤ :=
  if f < (-2 ^ 31 : ℤ) then -2 ^ 31 else if (2 ^ 31 - 1 : ℤ) < f then 2 ^ 31 - 1 else ⌊f⌋

noncomputable def rawTick (price : ℝ) : ℤ :=
  -- `ln` of a negative price is NaN, which casts to zero, and `ln 0` is minus infinity
  if price < 0 then 0
  else if price = 0 then -2 ^ 31
  else castI32 ⌊Real.log price / Real.log 1.0001⌋

theorem castI32_inRange (f : ℝ) : InRange 32 (castI32 f) := by
  unfold castI32 InRange
  split
  · decide
  · next below =>
    split
    · decide
    · next above =>
      rw [not_lt] at below above
      constructor
      · apply Int.le_floor.mpr
        exact_mod_cast below
      · apply Int.floor_lt.mpr
        have limit : f ≤ 2147483647 := by
          norm_num at above
          exact above
        norm_num
        linarith

theorem rawTick_inRange (price : ℝ) : InRange 32 (rawTick price) := by
  unfold rawTick
  split
  · decide
  · split
    · decide
    · exact castI32_inRange _

/-- Exact numbers, all of them finite. -/
noncomputable instance : F64 ℝ where
  decidableLT := inferInstance
  decidableLE := inferInstance
  twoPow64 := twoPow64
  tokenScale := tokenScale
  uiFactor := uiFactor
  sqrtQ64ToPrice := sqrtQ64ToPrice
  priceToSqrtQ64 := priceToSqrtQ64
  priceToSqrtQ64_lt := priceToSqrtQ64_lt
  computeIl := computeIl
  rawTick := rawTick
  rawTick_inRange := rawTick_inRange
  isFinite _ := true
  toU128 x := ⌊x⌋₊

@[simp] theorem F64.twoPow64_real : (F64.twoPow64 : ℝ) = TickLiq.twoPow64 := rfl

@[simp] theorem F64.tokenScale_real : (F64.tokenScale : ℕ → ℝ) = TickLiq.tokenScale := rfl

@[simp] theorem F64.uiFactor_real : (F64.uiFactor : ℕ → ℕ → ℝ) = TickLiq.uiFactor := rfl

@[simp] theorem F64.sqrtQ64ToPrice_real :
    (F64.sqrtQ64ToPrice : ℕ → ℝ) = TickLiq.sqrtQ64ToPrice := rfl

@[simp] theorem F64.priceToSqrtQ64_real :
    (F64.priceToSqrtQ64 : ℝ → ℕ) = TickLiq.priceToSqrtQ64 := rfl

@[simp] theorem F64.computeIl_real :
    (F64.computeIl : ℝ → ℝ → ℝ → ℝ → ℝ) = TickLiq.computeIl := rfl

@[simp] theorem F64.rawTick_real : (F64.rawTick : ℝ → ℤ) = TickLiq.rawTick := rfl

def priceToTick {K : Type} [F64 K] (checks : Bool) (price : K) (tickSpacing : ℤ) :
    Except Panic ℤ := do
  let steps ← divEuclid 32 (F64.rawTick price) tickSpacing
  mulChecked checks 32 steps tickSpacing

/-- Where products wrap, every price has a tick. -/
theorem priceToTick_unchecked {K : Type} [F64 K] (price : K) {tickSpacing : ℤ}
    (positive : 0 < tickSpacing) : ∃ tick, priceToTick false price tickSpacing = .ok tick := by
  unfold priceToTick
  rw [divEuclid_positive (F64.rawTick_inRange price) positive]
  exact checked_unchecked 32 _

/-! ### Ticks of floats

Positive finite floats, and their sums, are far from where the cast saturates. There
the tick is exact, follows the order of the prices and never overflows.
-/

/-- A positive finite `f64`. -/
structure FloatSized (x : ℝ) : Prop where
  lower : ((2 ^ 1074 : ℕ) : ℝ)⁻¹ ≤ x
  upper : x < (2 ^ 1024 : ℕ)

/-- A tick rounded down to the spacing. -/
noncomputable def alignedTick (price : ℝ) (tickSpacing : ℤ) : ℤ :=
  rawTick price / tickSpacing * tickSpacing

theorem FloatSized.pos {x : ℝ} (sized : FloatSized x) : 0 < x :=
  lt_of_lt_of_le (by positivity) sized.lower

theorem subnormal_le : ((2 ^ 1074 : ℕ) : ℝ)⁻¹ ≤ 1e-6 := by
  have power : ((2 : ℝ) ^ 20) ≤ 2 ^ 1074 := pow_le_pow_right₀ one_le_two (by decide)
  rw [Nat.cast_pow, Nat.cast_ofNat]
  calc ((2 : ℝ) ^ 1074)⁻¹ ≤ (2 ^ 20)⁻¹ := inv_anti₀ (by positivity) power
    _ ≤ 1e-6 := by norm_num

theorem floatSized_of_le {x : ℝ} (lower : 1e-6 ≤ x) (upper : x ≤ 1e6) : FloatSized x := by
  have power : ((2 : ℝ) ^ 20) ≤ 2 ^ 1024 := pow_le_pow_right₀ one_le_two (by decide)
  refine ⟨subnormal_le.trans lower, ?_⟩
  rw [Nat.cast_pow, Nat.cast_ofNat]
  calc x ≤ 1e6 := upper
    _ < 2 ^ 20 := by norm_num
    _ ≤ 2 ^ 1024 := power

theorem FloatSized.upper' {x : ℝ} (sized : FloatSized x) : x < (2 ^ 1025 : ℕ) := by
  have power : ((2 : ℝ) ^ 1024) ≤ 2 ^ 1025 := pow_le_pow_right₀ one_le_two (by decide)
  have upper := sized.upper
  rw [Nat.cast_pow, Nat.cast_ofNat] at upper ⊢
  exact upper.trans_le power

theorem log_tick_pos : 0 < Real.log 1.0001 := Real.log_pos (by norm_num)

/-- Ten thousand ticks are at least a factor of two. -/
theorem log_two_le : Real.log 2 ≤ 10000 * Real.log 1.0001 := by
  have power : (2 : ℝ) ≤ 1.0001 ^ 10000 := by
    have bernoulli := one_add_mul_le_pow (show (-2 : ℝ) ≤ 0.0001 by norm_num) 10000
    norm_num at bernoulli ⊢
    exact bernoulli
  calc Real.log 2 ≤ Real.log (1.0001 ^ 10000) := Real.log_le_log (by norm_num) power
    _ = 10000 * Real.log 1.0001 := by
      rw [Real.log_pow]
      norm_num

/-- The cast clamps the floor. -/
theorem castI32_eq (f : ℝ) : castI32 f = max (-2 ^ 31) (min (2 ^ 31 - 1) ⌊f⌋) := by
  unfold castI32
  split
  next below =>
    have floor : ⌊f⌋ < -2 ^ 31 := Int.floor_lt.mpr below
    omega
  next inside =>
    have lower : -2 ^ 31 ≤ ⌊f⌋ := Int.le_floor.mpr (not_lt.mp inside)
    split
    next above =>
      have floor : 2 ^ 31 - 1 ≤ ⌊f⌋ := Int.le_floor.mpr above.le
      omega
    next most =>
      have upper : ⌊f⌋ ≤ 2 ^ 31 - 1 := by
        have cast := (Int.floor_le f).trans (not_lt.mp most)
        exact_mod_cast cast
      omega

theorem rawTick_of_pos {price : ℝ} (positive : 0 < price) : rawTick price =
    max (-2 ^ 31) (min (2 ^ 31 - 1) ⌊Real.log price / Real.log 1.0001⌋) := by
  unfold rawTick
  rw [if_neg (not_lt.mpr positive.le), if_neg positive.ne', castI32_eq, Int.floor_intCast]

theorem rawTick_mono {p q : ℝ} (positive : 0 < p) (below : p ≤ q) : rawTick p ≤ rawTick q := by
  rw [rawTick_of_pos positive, rawTick_of_pos (lt_of_lt_of_le positive below)]
  have floors : ⌊Real.log p / Real.log 1.0001⌋ ≤ ⌊Real.log q / Real.log 1.0001⌋ :=
    Int.floor_mono (div_le_div_of_nonneg_right (Real.log_le_log positive below) log_tick_pos.le)
  exact max_le_max le_rfl (min_le_min le_rfl floors)

theorem rawTick_zero {price : ℝ} (above : 1 ≤ price) (below : price < 1.0001) :
    rawTick price = 0 := by
  have floor : ⌊Real.log price / Real.log 1.0001⌋ = 0 := by
    apply Int.floor_eq_zero_iff.mpr
    refine ⟨div_nonneg (Real.log_nonneg above) log_tick_pos.le, ?_⟩
    rw [div_lt_one log_tick_pos]
    exact Real.log_lt_log (one_pos.trans_le above) below
  rw [rawTick_of_pos (one_pos.trans_le above), floor]
  rfl

theorem rawTick_one : rawTick 1 = 0 := rawTick_zero le_rfl (by norm_num)

theorem rawTick_neg {price : ℝ} (positive : 0 < price) (below : price < 1) : rawTick price < 0 := by
  have floor : ⌊Real.log price / Real.log 1.0001⌋ < 0 := by
    apply Int.floor_lt.mpr
    rw [Int.cast_zero]
    exact div_neg_of_neg_of_pos (Real.log_neg positive below) log_tick_pos
  rw [rawTick_of_pos positive]
  omega

theorem rawTick_pos {price : ℝ} (above : 1.0001 ≤ price) : 0 < rawTick price := by
  have positive : 0 < price := lt_of_lt_of_le (by norm_num) above
  have floor : 1 ≤ ⌊Real.log price / Real.log 1.0001⌋ := by
    apply Int.le_floor.mpr
    rw [Int.cast_one, one_le_div log_tick_pos]
    exact Real.log_le_log (by norm_num) above
  rw [rawTick_of_pos positive]
  omega

theorem alignedTick_mono {p q : ℝ} {tickSpacing : ℤ} (spacing : 0 < tickSpacing)
    (positive : 0 < p) (below : p ≤ q) : alignedTick p tickSpacing ≤ alignedTick q tickSpacing :=
  Int.mul_le_mul_of_nonneg_right (Int.ediv_le_ediv spacing (rawTick_mono positive below)) spacing.le

/-- The tick of a price between two powers of two. -/
theorem floor_log_bounds {price : ℝ} {m n : ℕ} (lower : ((2 ^ m : ℕ) : ℝ)⁻¹ ≤ price)
    (upper : price < (2 ^ n : ℕ)) : -(10000 * m) ≤ ⌊Real.log price / Real.log 1.0001⌋ ∧
      ⌊Real.log price / Real.log 1.0001⌋ ≤ 10000 * n := by
  have positive : 0 < price := lt_of_lt_of_le (by positivity) lower
  have tick := log_tick_pos
  have above : -(m * Real.log 2) ≤ Real.log price := by
    have logs := Real.log_le_log (by positivity) lower
    rw [Real.log_inv, Nat.cast_pow, Real.log_pow] at logs
    exact_mod_cast logs
  have below : Real.log price ≤ n * Real.log 2 := by
    have logs := Real.log_le_log positive upper.le
    rw [Nat.cast_pow, Real.log_pow] at logs
    exact_mod_cast logs
  -- log 2 is less than ten thousand ticks
  constructor
  · apply Int.le_floor.mpr
    rw [le_div_iff₀ tick]
    have scaled := mul_le_mul_of_nonneg_left log_two_le (m.cast_nonneg : (0 : ℝ) ≤ m)
    push_cast
    linarith
  · apply Int.le_of_lt_add_one
    apply Int.floor_lt.mpr
    rw [div_lt_iff₀ tick]
    have scaled := mul_le_mul_of_nonneg_left log_two_le (n.cast_nonneg : (0 : ℝ) ≤ n)
    push_cast
    linarith

/-- A price, or the sum of a price and half of a width, is within eleven million ticks of
price one. -/
theorem rawTick_bounds {price : ℝ} (lower : ((2 ^ 1074 : ℕ) : ℝ)⁻¹ ≤ price)
    (upper : price < (2 ^ 1025 : ℕ)) : -11000000 ≤ rawTick price ∧ rawTick price ≤ 11000000 := by
  obtain ⟨least, most⟩ := floor_log_bounds lower upper
  rw [rawTick_of_pos (lt_of_lt_of_le (by positivity) lower)]
  omega

/-- `1.0001^tick` -/
noncomputable def tickPrice (tick : ℤ) : ℝ := 1.0001 ^ tick

theorem tickPrice_pos (tick : ℤ) : 0 < tickPrice tick := zpow_pos (by norm_num) tick

theorem le_floor_log_iff {price : ℝ} (positive : 0 < price) (tick : ℤ) :
    tick ≤ ⌊Real.log price / Real.log 1.0001⌋ ↔ tickPrice tick ≤ price := by
  have scale : (0 : ℝ) < 1.0001 ^ tick := tickPrice_pos tick
  rw [Int.le_floor, le_div_iff₀ log_tick_pos, ← Real.log_zpow, Real.log_le_log_iff scale positive]
  rfl

/-- A tick that the cast leaves alone is reached at its own price. -/
theorem le_rawTick_iff {price : ℝ} (positive : 0 < price) {tick : ℤ} (above : -2 ^ 31 < tick)
    (fits : tick < 2 ^ 31) : tick ≤ rawTick price ↔ tickPrice tick ≤ price := by
  rw [← le_floor_log_iff positive, rawTick_of_pos positive]
  omega

/-! ### Multiples of the spacing -/

/-- The first multiple of the spacing at or above the tick. -/
def gridAbove (tick spacing : ℤ) : ℤ := -(-tick / spacing) * spacing

/-- The first multiple of the spacing beyond the tick. -/
def gridNext (tick spacing : ℤ) : ℤ := (tick / spacing + 1) * spacing

theorem le_aligned_iff {n tick spacing : ℤ} (positive : 0 < spacing) :
    tick ≤ n / spacing * spacing ↔ gridAbove tick spacing ≤ n := by
  have quotients : -tick / spacing ≥ -(n / spacing) ↔ tick ≤ n / spacing * spacing := by
    rw [ge_iff_le, Int.le_ediv_iff_mul_le positive, Int.neg_mul, Int.neg_le_neg_iff]
  rw [← quotients, gridAbove, ← Int.le_ediv_iff_mul_le positive]
  omega

theorem aligned_le_iff {n tick spacing : ℤ} (positive : 0 < spacing) :
    n / spacing * spacing ≤ tick ↔ n < gridNext tick spacing := by
  rw [gridNext, ← Int.ediv_lt_iff_lt_mul positive, Int.lt_add_one_iff,
    Int.le_ediv_iff_mul_le positive]

/-- Rounding a small number down to a multiple keeps it small, or makes it one of the two
multiples around zero. -/
theorem aligned_bounds {n s bound : ℤ} (spacing : 0 < s) (lower : -bound ≤ n) (upper : n ≤ bound) :
    (bound < s ∧ (n / s * s = 0 ∨ n / s * s = -s)) ∨
      (s ≤ bound ∧ -(2 * bound) ≤ n / s * s ∧ n / s * s ≤ bound) := by
  have floor := Int.ediv_mul_le n spacing.ne'
  have next := Int.lt_ediv_add_one_mul_self n spacing
  rw [Int.add_mul, Int.one_mul] at next
  rcases le_or_gt s bound with small | large
  · exact Or.inr ⟨small, by omega, by omega⟩
  · -- a spacing beyond the ticks leaves two multiples
    rcases lt_or_ge n 0 with negative | nonnegative
    · have quotient : n / s = -1 := by
        apply le_antisymm
        · exact Int.le_of_lt_add_one (Int.ediv_lt_of_lt_mul spacing (by omega))
        · exact Int.le_ediv_of_mul_le spacing (by omega)
      rw [quotient]
      exact Or.inl ⟨large, Or.inr (by omega)⟩
    · rw [Int.ediv_eq_zero_of_lt nonnegative (by omega)]
      exact Or.inl ⟨large, Or.inl (Int.zero_mul s)⟩

theorem priceToTick_of_ticks {price : ℝ} {tickSpacing : ℤ} (spacing : 0 < tickSpacing)
    (fits : InRange 32 tickSpacing) (least : -100000000 ≤ rawTick price)
    (most : rawTick price ≤ 100000000) (checks : Bool) :
    priceToTick checks price tickSpacing = .ok (alignedTick price tickSpacing) := by
  have bounds := aligned_bounds spacing least most
  have inside : InRange 32 (rawTick price / tickSpacing * tickSpacing) := by
    unfold InRange at fits ⊢
    omega
  unfold priceToTick
  rw [divEuclid_positive (F64.rawTick_inRange price) spacing]
  exact if_pos inside

section Floats

variable {p q : ℝ} {tickSpacing : ℤ} (spacing : 0 < tickSpacing) (fits : InRange 32 tickSpacing)
  (lower : ((2 ^ 1074 : ℕ) : ℝ)⁻¹ ≤ p) (upper : p < (2 ^ 1025 : ℕ))
include spacing fits lower upper

theorem priceToTick_aligned (checks : Bool) :
    priceToTick checks p tickSpacing = .ok (alignedTick p tickSpacing) := by
  obtain ⟨least, most⟩ := rawTick_bounds lower upper
  exact priceToTick_of_ticks spacing fits (by omega) (by omega) checks

theorem alignedTick_sub_inRange (lower' : ((2 ^ 1074 : ℕ) : ℝ)⁻¹ ≤ q)
    (upper' : q < (2 ^ 1025 : ℕ)) :
    InRange 32 (alignedTick p tickSpacing - alignedTick q tickSpacing) := by
  obtain ⟨least, most⟩ := rawTick_bounds lower upper
  obtain ⟨least', most'⟩ := rawTick_bounds lower' upper'
  have bounds := aligned_bounds spacing least most
  have bounds' := aligned_bounds spacing least' most'
  unfold alignedTick
  unfold InRange at fits ⊢
  omega

end Floats

/-! ### The bracket of a price -/

/-- The price is at or above the tick and below the next one of its spacing. -/
structure Brackets (tick spacing : ℤ) (price : ℝ) : Prop where
  multiple : spacing ∣ tick
  lower : tickPrice tick ≤ price
  upper : price < tickPrice (tick + spacing)

theorem brackets_iff {price : ℝ} (positive : 0 < price) (tick spacing : ℤ) :
    Brackets tick spacing price ↔ spacing ∣ tick ∧
      tick ≤ ⌊Real.log price / Real.log 1.0001⌋ ∧
      ⌊Real.log price / Real.log 1.0001⌋ < tick + spacing := by
  rw [le_floor_log_iff positive, ← not_le, le_floor_log_iff positive, not_le]
  constructor
  · intro brackets
    exact ⟨brackets.multiple, brackets.lower, brackets.upper⟩
  · rintro ⟨multiple, lower, upper⟩
    exact ⟨multiple, lower, upper⟩

theorem dvd_unique {n s t : ℤ} (spacing : 0 < s) (multiple : s ∣ t) (lower : t ≤ n)
    (upper : n < t + s) : t = n / s * s := by
  obtain ⟨k, here⟩ := multiple
  have quotient : n / s = k := by
    apply le_antisymm
    · apply Int.le_of_lt_add_one
      apply Int.ediv_lt_of_lt_mul spacing
      rw [Int.add_mul, Int.one_mul, Int.mul_comm k, ← here]
      exact upper
    · apply Int.le_ediv_of_mul_le spacing
      rw [Int.mul_comm, ← here]
      exact lower
  rw [quotient, here, Int.mul_comm]

/-- A finer grid rounds down less. -/
theorem aligned_le_finer {n s d : ℤ} (spacing : 0 < s) (finer : 0 < d) (divides : d ∣ s) :
    n / s * s ≤ n / d * d := by
  obtain ⟨k, here⟩ := divides.trans (Dvd.intro_left (n / s) rfl)
  have below : n / s * s ≤ n := Int.ediv_mul_le n spacing.ne'
  rw [here, Int.mul_comm] at below ⊢
  exact Int.mul_le_mul_of_nonneg_right (Int.le_ediv_of_mul_le finer below) finer.le

theorem FloatSized.rawTick_eq {p : ℝ} (sized : FloatSized p) :
    rawTick p = ⌊Real.log p / Real.log 1.0001⌋ := by
  obtain ⟨least, most⟩ := floor_log_bounds sized.lower sized.upper
  rw [rawTick_of_pos sized.pos]
  omega

/-- Every positive finite price falls into one bracket, that of its tick. -/
theorem priceToTick_brackets {p : ℝ} {tickSpacing : ℤ} (sized : FloatSized p)
    (spacing : 1 ≤ tickSpacing) (fits : tickSpacing ≤ 2 ^ 31 - 1) (checks : Bool) :
    ∃ tick, priceToTick checks p tickSpacing = .ok tick ∧
      Brackets tick tickSpacing p ∧ (∀ t, Brackets t tickSpacing p → t = tick) ∧
      (∀ q, FloatSized q → p ≤ q →
        ∃ later, priceToTick checks q tickSpacing = .ok later ∧ tick ≤ later) ∧
      ∀ d, 1 ≤ d → d ∣ tickSpacing →
        ∃ finer, priceToTick checks p d = .ok finer ∧ tick ≤ finer := by
  have inside : InRange 32 tickSpacing := by
    unfold InRange
    omega
  refine ⟨alignedTick p tickSpacing,
    priceToTick_aligned spacing inside sized.lower sized.upper' checks, ?_, ?_, ?_, ?_⟩
  · rw [brackets_iff sized.pos, ← sized.rawTick_eq, alignedTick]
    have next := Int.lt_ediv_add_one_mul_self (rawTick p) spacing
    rw [Int.add_mul, Int.one_mul] at next
    exact ⟨Dvd.intro_left _ rfl, Int.ediv_mul_le _ (by omega), next⟩
  -- two multiples of the spacing do not fit into one spacing
  · intro t brackets
    rw [brackets_iff sized.pos, ← sized.rawTick_eq] at brackets
    exact dvd_unique spacing brackets.1 brackets.2.1 brackets.2.2
  · intro q sized' below
    exact ⟨_, priceToTick_aligned spacing inside sized'.lower sized'.upper' checks,
      alignedTick_mono spacing sized.pos below⟩
  · intro d positive divides
    have smaller : d ≤ tickSpacing := Int.le_of_dvd spacing divides
    have inside' : InRange 32 d := by
      unfold InRange
      omega
    exact ⟨_, priceToTick_aligned positive inside' sized.lower sized.upper' checks,
      aligned_le_finer spacing positive divides⟩

theorem priceToTick_brackets_one :
    ∃ tick, priceToTick true (1 : ℝ) 64 = .ok tick ∧ Brackets tick 64 1 := by
  obtain ⟨tick, returned, brackets, _⟩ :=
    priceToTick_brackets (floatSized_of_le (x := 1) (by norm_num) (by norm_num))
      (by norm_num : (1 : ℤ) ≤ 64) (by norm_num) true
  exact ⟨tick, returned, brackets⟩

end TickLiq
