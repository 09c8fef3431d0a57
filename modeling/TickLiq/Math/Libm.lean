import Mathlib.Analysis.SpecialFunctions.Log.Basic
import Mathlib.Analysis.Complex.ExponentialBounds
import TickLiq.Machine.Binary64
import TickLiq.Math.F64

/-!
# The engines in `f64`

Operators and roots are those of IEEE 754. `ln` and `powi` come from the platform, and Rust
leaves their precision open: they are a parameter, and of them the laws state the special
values of IEEE 754 and an accuracy that every platform has.
-/
namespace TickLiq

open Machine (Binary64)
open Machine.Binary64

/-- `f64::ln`, and `f64::powi` on `i32` exponents. -/
class Libm where
  ln : Binary64 → Binary64
  powi : Binary64 → ℤ → Binary64

/-- What holds of `ln` and of the powers of ten on every platform. -/
class Libm.Lawful [Libm] : Prop where
  ln_zero : Libm.ln 0 = .inf true
  ln_inf : Libm.ln (.inf false) = .inf false
  /-- Of a NaN or of a negative value. -/
  ln_invalid : ∀ x : Binary64, ¬0 ≤ x → Libm.ln x = .nan
  ln_error : ∀ x v, Reads x v → 0 < v →
    ∃ a, Reads (Libm.ln x) a ∧ |(a : ℝ) - Real.log v| ≤ 1e-5
  powi_zero : ∀ x, Libm.powi x 0 = 1
  powi_ten : ∀ n : ℤ, |n| ≤ 255 →
    ∃ a, Reads (Libm.powi (10 : ℕ) n) a ∧ 10 ^ n / 2 ≤ a ∧ a ≤ 2 * 10 ^ n

/-- What holds of the powers of a tick, far beyond the ticks of a pool: five digits. -/
class Libm.TickPowers [Libm] : Prop where
  powi_tick : ∀ v, Reads (1.0001 : Binary64) v → ∀ n : ℤ, |n| ≤ 7000000 →
    ∃ a, Reads (Libm.powi 1.0001 n) a ∧ |a - v ^ n| ≤ v ^ n / 100000

/-! ### The functions of `math` -/

namespace Rounded

def twoPow64 : Binary64 := (2 ^ 64 : ℕ)

def sqrtQ64ToPrice (sqrtPriceQ64 : ℕ) : Binary64 :=
  let intPart : ℕ := sqrtPriceQ64 / 2 ^ 64
  let fracPart : ℕ := sqrtPriceQ64 % 2 ^ 64
  let sqrtP : Binary64 := intPart + fracPart / twoPow64
  sqrtP * sqrtP

def priceToSqrtQ64 (rawPrice : Binary64) : ℕ :=
  if rawPrice.isNan ∨ rawPrice ≤ 0 then 0
  else
    let v := rawPrice.sqrt * twoPow64
    if ¬v.isFinite ∨ ((2 ^ 128 - 1 : ℕ) : Binary64) ≤ v then 2 ^ 128 - 1 else v.toU128

def computeIl (priceEntry priceCurrent priceLower priceUpper : Binary64) : Binary64 :=
  if priceEntry = 0 then 0
  else
    let pa := priceLower.sqrt
    let pb := priceUpper.sqrt
    if pa ≤ 0 ∨ pa.isNan ∨ pb.isNan ∨ pb ≤ pa then 0
    else
      let sp0 := priceEntry.sqrt.clamp pa pb
      let sp1 := priceCurrent.sqrt.clamp pa pb
      let x0 := 1 / sp0 - 1 / pb
      let y0 := sp0 - pa
      let x1 := 1 / sp1 - 1 / pb
      let y1 := sp1 - pa
      let vHodl := x0 * priceCurrent + y0
      let vLp := x1 * priceCurrent + y1
      if vHodl ≤ 0 then 0 else min (vLp / vHodl - 1) 0

variable [Libm]

def tokenScale (decimals : ℕ) : Binary64 := Libm.powi (10 : ℕ) decimals

def uiFactor (decimalsA decimalsB : ℕ) : Binary64 :=
  Libm.powi (10 : ℕ) ((decimalsA : ℤ) - decimalsB)

def rawTick (price : Binary64) : ℤ := (Libm.ln price / Libm.ln 1.0001).floor.toI32

omit [Libm] in
theorem priceToSqrtQ64_lt (rawPrice : Binary64) : priceToSqrtQ64 rawPrice < 2 ^ 128 := by
  unfold priceToSqrtQ64
  split
  · decide
  · dsimp only
    split
    · decide
    · have bounds := toInt_bounds (rawPrice.sqrt * twoPow64) le_rfl
        (show (0 : ℤ) ≤ 2 ^ 128 - 1 by decide)
      unfold toU128
      omega

theorem rawTick_inRange (price : Binary64) : Machine.InRange 32 (rawTick price) := by
  have bounds := toInt_bounds (Libm.ln price / Libm.ln 1.0001).floor
    (show (-2 ^ 31 : ℤ) ≤ 0 by decide) (show (0 : ℤ) ≤ 2 ^ 31 - 1 by decide)
  exact ⟨bounds.1, Int.lt_of_le_sub_one bounds.2⟩

end Rounded

instance Libm.f64 [Libm] : F64 Binary64 where
  decidableLT := inferInstance
  decidableLE := inferInstance
  twoPow64 := Rounded.twoPow64
  tokenScale := Rounded.tokenScale
  uiFactor := Rounded.uiFactor
  sqrtQ64ToPrice := Rounded.sqrtQ64ToPrice
  priceToSqrtQ64 := Rounded.priceToSqrtQ64
  priceToSqrtQ64_lt := Rounded.priceToSqrtQ64_lt
  computeIl := Rounded.computeIl
  rawTick := Rounded.rawTick
  rawTick_inRange := Rounded.rawTick_inRange
  isFinite := Binary64.isFinite
  toU128 := Binary64.toU128

namespace Rounded

variable [Libm]

-- equations of functions, since a comparison of applied ones computes them

theorem twoPow64_eq : (F64.twoPow64 : Binary64) = twoPow64 := rfl

theorem tokenScale_eq : (F64.tokenScale : ℕ → Binary64) = tokenScale := rfl

theorem uiFactor_eq : (F64.uiFactor : ℕ → ℕ → Binary64) = uiFactor := rfl

theorem sqrtQ64ToPrice_eq : (F64.sqrtQ64ToPrice : ℕ → Binary64) = sqrtQ64ToPrice := rfl

end Rounded

/-! ### Powers of ten -/

theorem ten_zpow_bounds {n : ℤ} (small : |n| ≤ 255) :
    ((2 ^ 850 : ℕ) : ℚ)⁻¹ ≤ 10 ^ n ∧ (10 : ℚ) ^ n ≤ (2 ^ 850 : ℕ) := by
  have powers : (10 : ℚ) ^ (255 : ℤ) ≤ (2 ^ 850 : ℕ) := by
    have thousand : ((10 : ℚ) ^ 3) ^ 85 ≤ (2 ^ 10) ^ 85 :=
      pow_le_pow_left₀ (by norm_num) (by norm_num) 85
    rw [Nat.cast_pow, Nat.cast_ofNat]
    exact ((pow_mul (10 : ℚ) 3 85).trans_le thousand).trans_eq (pow_mul (2 : ℚ) 10 85).symm
  obtain ⟨lower, upper⟩ := abs_le.mp small
  constructor
  · calc ((2 ^ 850 : ℕ) : ℚ)⁻¹ ≤ (10 ^ (255 : ℤ))⁻¹ := inv_anti₀ (by positivity) powers
      _ = 10 ^ (-255 : ℤ) := (zpow_neg 10 255).symm
      _ ≤ 10 ^ n := zpow_le_zpow_right₀ (by norm_num) lower
  · exact (zpow_le_zpow_right₀ (by norm_num) upper).trans powers

theorem Libm.Lawful.powi_bounds [Libm] [Libm.Lawful] {n : ℤ} (small : |n| ≤ 255) :
    ∃ a, Reads (Libm.powi (10 : ℕ) n) a ∧ 0 < a ∧ a ≤ 2 * (2 ^ 850 : ℕ) := by
  obtain ⟨a, reads, least, most⟩ := Libm.Lawful.powi_ten n small
  have power : (0 : ℚ) < 10 ^ n := zpow_pos (by norm_num) n
  have bound := (ten_zpow_bounds small).2
  exact ⟨a, reads, by linarith, by linarith⟩

namespace Rounded

theorem reads_uiFactor [Libm] [Libm.Lawful] {decimalsA decimalsB : ℕ} (a : decimalsA ≤ 255)
    (b : decimalsB ≤ 255) :
    ∃ v, Reads (uiFactor decimalsA decimalsB) v ∧ 0 < v ∧ v ≤ 2 * (2 ^ 850 : ℕ) := by
  apply Libm.Lawful.powi_bounds
  rw [abs_le]
  omega

theorem uiFactor_atMost [Libm] [Libm.Lawful] {decimalsA decimalsB : ℕ} (a : decimalsA ≤ 255)
    (b : decimalsB ≤ 255) : AtMost 851 (uiFactor decimalsA decimalsB) := by
  obtain ⟨v, reads, positive, most⟩ := reads_uiFactor a b
  refine ⟨v, reads, ?_⟩
  rw [abs_of_pos positive]
  refine most.trans_eq ?_
  rw [Nat.cast_pow, Nat.cast_pow, Nat.cast_ofNat, ← pow_succ']

theorem reads_tokenScale [Libm] [Libm.Lawful] {decimals : ℕ} (small : decimals ≤ 255) :
    ∃ v, Reads (tokenScale decimals) v ∧ 0 < v ∧ v ≤ 2 * (2 ^ 850 : ℕ) := by
  apply Libm.Lawful.powi_bounds
  rw [abs_le]
  omega

/-! ### Prices -/

theorem reads_twoPow64 : Reads twoPow64 (2 ^ 64 : ℕ) := by
  have reads := (natCast_atMost (le_refl (2 ^ 64)) (show 64 < 1024 by decide)).1
  rwa [Machine.nearest_of_representable (Machine.representable_two_pow 64)] at reads

theorem sqrtQ64ToPrice_atMost {sqrtPriceQ64 : ℕ} (fits : sqrtPriceQ64 < 2 ^ 128) :
    AtMost 130 (sqrtQ64ToPrice sqrtPriceQ64) := by
  have whole : AtMost 64 ((sqrtPriceQ64 / 2 ^ 64 : ℕ) : Binary64) :=
    ⟨_, natCast_atMost (by omega) (by decide)⟩
  have part : AtMost 64 ((sqrtPriceQ64 % 2 ^ 64 : ℕ) : Binary64) :=
    ⟨_, natCast_atMost (by omega) (by decide)⟩
  have fraction := part.div reads_twoPow64 (Nat.one_le_cast.mpr Nat.one_le_two_pow) (by decide)
  have root := whole.add fraction (by decide)
  exact root.mul root (by decide)

/-! ### Ticks -/

/-- The logarithm of a finite float is at most 745 in size. -/
theorem abs_log_le {v : ℚ} (positive : 0 < v) (representable : Machine.Representable v)
    (bounded : |v| < Machine.overflow) : |Real.log v| ≤ 745 := by
  have two : Real.log 2 < 0.6931471808 := Real.log_two_lt_d9
  have unit : 0 < Real.log 2 := Real.log_pos one_lt_two
  have real : (0 : ℝ) < v := Rat.cast_pos.mpr positive
  have least : ((2 ^ 1074 : ℕ) : ℝ)⁻¹ ≤ v := by
    have cast : ((1 / Machine.unitsPerOne : ℚ) : ℝ) ≤ v :=
      Rat.cast_le.mpr (representable.least positive)
    rwa [Machine.unitsPerOne, one_div, Rat.cast_inv, Rat.cast_natCast] at cast
  have most : (v : ℝ) ≤ (2 ^ 1024 : ℕ) := by
    have cast : (v : ℝ) ≤ ((Machine.overflow : ℚ) : ℝ) :=
      Rat.cast_le.mpr ((le_abs_self v).trans bounded.le)
    rwa [Machine.overflow, Rat.cast_natCast] at cast
  have lower := Real.log_le_log (by positivity) least
  have upper := Real.log_le_log real most
  rw [Real.log_inv, Nat.cast_pow, Nat.cast_ofNat, Real.log_pow] at lower
  rw [Nat.cast_pow, Nat.cast_ofNat, Real.log_pow] at upper
  push_cast at lower upper
  apply abs_le.mpr
  constructor <;> linarith

variable [Libm] [Libm.Lawful]

omit [Libm] [Libm.Lawful] in
/-- The price of one tick as `f64` has it. -/
theorem reads_tick : ∃ v, Reads (1.0001 : Binary64) v ∧ 1.000099 ≤ v ∧ v ≤ 1.000101 := by
  have close : |Machine.nearest 1.0001 - 1.0001| ≤ 1 / 2 ^ 20 :=
    Machine.nearest_error (by norm_num [abs_of_pos])
  obtain ⟨lower, upper⟩ := abs_le.mp close
  refine ⟨Machine.nearest 1.0001, reads_round_small (by norm_num [abs_of_pos]), ?_, ?_⟩
  · norm_num at lower ⊢
    linarith
  · norm_num at upper ⊢
    linarith

/-- The logarithm of one tick. -/
theorem reads_log_tick : ∃ c, Reads (Libm.ln 1.0001) c ∧ 1 / 12500 ≤ c := by
  obtain ⟨v, reads, lower, _⟩ := reads_tick
  have positive : 0 < v := lt_of_lt_of_le (by norm_num) lower
  obtain ⟨c, log, error⟩ := Libm.Lawful.ln_error _ _ reads positive
  refine ⟨c, log, ?_⟩
  -- `1 - 1 / v` is below the logarithm
  have real : (0 : ℝ) < v := Rat.cast_pos.mpr positive
  have below := Real.one_sub_inv_le_log_of_pos real
  have large : (1.000099 : ℝ) ≤ v := by
    have cast : ((1.000099 : ℚ) : ℝ) ≤ v := Rat.cast_le.mpr lower
    norm_num at cast ⊢
    exact cast
  have inverse : (v : ℝ)⁻¹ ≤ (1.000099 : ℝ)⁻¹ := inv_anti₀ (by norm_num) large
  have least : ((1 / 12500 : ℚ) : ℝ) ≤ c := by
    have near := (abs_le.mp error).1
    norm_num at inverse near ⊢
    linarith
  exact_mod_cast least

omit [Libm] [Libm.Lawful] in
/-- A logarithm divided by that of a tick, on its way to `i32`. -/
theorem tick_of_log {x y : Binary64} {a c : ℚ} (log : Reads x a) (size : |a| ≤ 746)
    (tick : Reads y c) (least : 1 / 12500 ≤ c) :
    -100000000 ≤ (x / y).floor.toI32 ∧ (x / y).floor.toI32 ≤ 100000000 := by
  have positive : 0 < c := lt_of_lt_of_le (by norm_num) least
  have bits : Machine.Representable ((10000000 : ℤ) : ℚ) :=
    Machine.representable_intCast (by decide)
  have quotient : |a / c| ≤ ((10000000 : ℤ) : ℚ) := by
    rw [abs_div, abs_of_pos positive, div_le_iff₀ positive, Int.cast_ofNat]
    linarith
  have ticks := Machine.nearest_abs_le bits quotient
  have reads := reads_round_small (quotient.trans (by norm_num))
  rw [← log.div tick positive.ne'] at reads
  obtain ⟨lower, upper⟩ := abs_le.mp ticks
  -- the floor is an integer of the same bound, and rounding it keeps the bound
  have floors : |((⌊Machine.nearest (a / c)⌋ : ℤ) : ℚ)| ≤ ((10000000 : ℤ) : ℚ) := by
    apply abs_le.mpr
    constructor
    · rw [← Int.cast_neg, Int.cast_le]
      apply Int.le_floor.mpr
      rwa [Int.cast_neg]
    · exact (Int.floor_le _).trans upper
  have small := abs_le.mp (Machine.nearest_abs_le bits floors)
  have whole := reads_round_small (floors.trans (by norm_num))
  rw [← reads.floor] at whole
  -- the cast cuts towards zero, to the floor or to the ceiling of what is left
  unfold toI32
  rw [whole.toInt]
  have least : -10000000 ≤ ⌊Machine.nearest ⌊Machine.nearest (a / c)⌋⌋ := by
    apply Int.le_floor.mpr
    exact_mod_cast small.1
  have most : ⌈Machine.nearest ⌊Machine.nearest (a / c)⌋⌉ ≤ 10000000 := by
    apply Int.ceil_le.mpr
    exact_mod_cast small.2
  have order := Int.floor_le_ceil (Machine.nearest ⌊Machine.nearest (a / c)⌋)
  split <;> omega

/-- Only zero and infinity are cast to the ends of `i32`. -/
theorem rawTick_cases (price : Binary64) : (price = 0 ∧ rawTick price = -2 ^ 31) ∨
    (price = .inf false ∧ rawTick price = 2 ^ 31 - 1) ∨
    (price ≠ 0 ∧ price ≠ .inf false ∧ -100000000 ≤ rawTick price ∧ rawTick price ≤ 100000000) := by
  obtain ⟨c, tick, least⟩ := reads_log_tick
  have positive : 0 < c := lt_of_lt_of_le (by norm_num) least
  obtain ⟨_, _, finite⟩ := reads_zero
  -- the logarithm of a NaN or a negative value is a NaN, which casts to zero
  have invalid : ¬0 ≤ price → rawTick price = 0 := by
    intro below
    unfold rawTick
    rw [Libm.Lawful.ln_invalid price below]
    rfl
  cases here : price with
  | nan =>
    refine Or.inr (Or.inr ⟨by simp [finite], by simp, ?_⟩)
    rw [← here, invalid (here ▸ not_le_nan)]
    decide
  | inf negative =>
    cases negative with
    | true =>
      refine Or.inr (Or.inr ⟨by simp [finite], by simp, ?_⟩)
      rw [← here, invalid (here ▸ reads_zero.not_le_inf)]
      decide
    | false =>
      refine Or.inr (Or.inl ⟨rfl, ?_⟩)
      unfold rawTick
      rw [Libm.Lawful.ln_inf, tick.inf_div, decide_eq_false (not_lt.mpr positive.le)]
      rfl
  | finite v bits bounded =>
    have reads : Reads price v := ⟨bits, bounded, here⟩
    rw [← here]
    rcases lt_trichotomy v 0 with negative | zero | above
    · have below : ¬0 ≤ price := by
        rw [reads_zero.le_iff reads]
        exact not_le.mpr negative
      refine Or.inr (Or.inr ⟨?_, by rw [here]; simp, by rw [invalid below]; decide⟩)
      intro zero
      exact below (zero ▸ (reads_zero.le_iff reads_zero).mpr le_rfl)
    · left
      rw [zero] at reads
      have same := reads.eq_of_eq reads_zero
      refine ⟨same, ?_⟩
      unfold rawTick
      rw [same, Libm.Lawful.ln_zero, tick.inf_div, decide_eq_false (not_lt.mpr positive.le)]
      rfl
    · obtain ⟨a, log, error⟩ := Libm.Lawful.ln_error _ _ reads above
      have size : |a| ≤ 746 := by
        have real := abs_log_le above bits bounded
        have cast : |(a : ℝ)| ≤ 746 := by
          have near := abs_sub_abs_le_abs_sub (a : ℝ) (Real.log v)
          norm_num at error
          linarith
        exact_mod_cast cast
      refine Or.inr (Or.inr ⟨?_, by rw [here]; simp, tick_of_log log size tick least⟩)
      intro zero
      rw [zero] at reads
      exact above.ne' (reads.unique reads_zero)

theorem rawTick_zero : rawTick 0 = -2 ^ 31 := by
  obtain ⟨_, _, finite⟩ := reads_zero
  rcases rawTick_cases 0 with ⟨_, lowest⟩ | ⟨infinite, _⟩ | ⟨nonzero, _⟩
  · exact lowest
  · rw [finite] at infinite
    cases infinite
  · exact absurd rfl nonzero

end Rounded

/-! ### A platform without error -/

namespace Libm

open Classical in
/-- Functions that round the exact result. -/
@[reducible] noncomputable def ideal : Libm where
  ln
    | .finite v .. =>
      if v = 0 then .inf true
      else if v < 0 then .nan
      else Binary64.round (exists_rat_btwn (lt_add_of_pos_right (Real.log v)
        (show (0 : ℝ) < 1e-6 by norm_num))).choose
    | .inf false => .inf false
    | _ => .nan
  powi x n :=
    if n = 0 then 1
    else match x with
      | .finite v .. => if v = 0 ∧ n < 0 then .inf false else Binary64.round (v ^ n)
      | .inf negative => if n < 0 then 0 else .inf (negative && n % 2 = 1)
      | .nan => .nan

theorem ideal_ln_error {x : Binary64} {v : ℚ} (reads : Reads x v) (positive : 0 < v) :
    ∃ a, Reads (ideal.ln x) a ∧ |(a : ℝ) - Real.log v| ≤ 1e-5 := by
  obtain ⟨bits, bounded, here⟩ := reads
  have log := Rounded.abs_log_le positive bits bounded
  have between := (exists_rat_btwn (lt_add_of_pos_right (Real.log v)
    (show (0 : ℝ) < 1e-6 by norm_num))).choose_spec
  have result : ideal.ln x = Binary64.round (exists_rat_btwn (lt_add_of_pos_right (Real.log v)
      (show (0 : ℝ) < 1e-6 by norm_num))).choose := by
    rw [here]
    exact (if_neg positive.ne').trans (if_neg (not_lt.mpr positive.le))
  rw [result]
  generalize Exists.choose _ = q at between
  obtain ⟨lower, upper⟩ := abs_le.mp log
  have size : |q| ≤ 746 := by
    have real : |(q : ℝ)| ≤ 746 := by
      norm_num at between
      exact abs_le.mpr ⟨by linarith, by linarith⟩
    exact_mod_cast real
  refine ⟨_, reads_round_small (size.trans (by norm_num)), ?_⟩
  have error := Machine.nearest_error (size.trans (by norm_num))
  have real := (Rat.cast_le (K := ℝ)).mpr error
  push_cast at real
  obtain ⟨least, most⟩ := abs_le.mp real
  norm_num at between least most ⊢
  exact abs_le.mpr ⟨by linarith, by linarith⟩

theorem ideal_powi_ten {n : ℤ} (small : |n| ≤ 255) :
    ∃ a, Reads (ideal.powi (10 : ℕ) n) a ∧ 10 ^ n / 2 ≤ a ∧ a ≤ 2 * 10 ^ n := by
  obtain ⟨least, most⟩ := ten_zpow_bounds small
  have power : (0 : ℚ) < 10 ^ n := zpow_pos (by norm_num) n
  have error := Machine.nearest_relative_inv (k := 0) (by decide) (by decide) least
  rw [pow_zero, Nat.cast_one] at error
  obtain ⟨lower, upper⟩ := abs_le.mp error
  -- 10 ^ 255 is far below the overflow
  have fits : |Machine.nearest (10 ^ n)| < Machine.overflow := by
    rw [abs_of_nonneg (Machine.nearest_nonneg power.le)]
    have room : (2 : ℚ) ^ 2 * (2 ^ 850 : ℕ) ≤ Machine.overflow := by
      rw [Machine.overflow, Nat.cast_pow, Nat.cast_pow, Nat.cast_ofNat, ← pow_add]
      exact pow_le_pow_right₀ one_le_two (by decide)
    have unit : (0 : ℚ) < (2 ^ 850 : ℕ) := Nat.cast_pos.mpr (pow_pos two_pos _)
    linarith
  have rounds : Reads (ideal.powi (10 : ℕ) n) (Machine.nearest (10 ^ n)) := by
    by_cases zero : n = 0
    · have one : ideal.powi (10 : ℕ) n = 1 := if_pos zero
      have exact' := Machine.nearest_of_representable reads_one.representable
      rw [one, zero, zpow_zero, exact']
      exact reads_one
    · obtain ⟨_, _, ten⟩ := reads_natCast (show 10 ≤ 2 ^ 53 by decide)
      have result : ideal.powi (10 : ℕ) n = Binary64.round (10 ^ n) := by
        refine (if_neg zero).trans ?_
        rw [ten]
        simp
      rw [result]
      exact reads_round fits
  refine ⟨_, rounds, ?_, ?_⟩ <;> linarith

noncomputable instance idealLawful : @Lawful ideal :=
  letI := ideal
  { ln_zero := by
      obtain ⟨_, _, zero⟩ := reads_zero
      rw [zero]
      exact if_pos rfl
    ln_inf := rfl
    ln_invalid := by
      intro x below
      cases x with
      | nan => rfl
      | inf negative =>
        cases negative with
        | true => rfl
        | false =>
          obtain ⟨_, _, zero⟩ := reads_zero
          rw [zero] at below
          exact absurd rfl below
      | finite v bits bounded =>
        have negative : v < 0 := by
          rw [reads_zero.le_iff ⟨bits, bounded, rfl⟩] at below
          exact not_le.mp below
        exact (if_neg negative.ne).trans (if_pos negative)
    ln_error := fun _ _ => ideal_ln_error
    powi_zero := fun _ => if_pos rfl
    powi_ten := fun _ => ideal_powi_ten }

/-- The powers of a tick up to seven millions are far from overflow. -/
theorem tick_power_le {v : ℚ} (least : 1 ≤ v) (most : v ≤ 1.000101) :
    v ^ (7000000 : ℤ) ≤ (2 ^ 1022 : ℕ) := by
  have tick : (v : ℝ) ≤ Real.exp 0.000101 := by
    have cast : (v : ℝ) ≤ ((1.000101 : ℚ) : ℝ) := Rat.cast_le.mpr most
    have above := Real.add_one_le_exp (0.000101 : ℝ)
    norm_num at cast above ⊢
    -- e ^ 9 is below 2 ^ 13, so seven million ticks stay below 2 ^ 1022
    linarith
  have nonneg : (0 : ℝ) ≤ v := Rat.cast_nonneg.mpr (zero_le_one.trans least)
  have one : Real.exp 1 < 2.7182818286 := Real.exp_one_lt_d9
  have nine : Real.exp 1 ^ 9 ≤ 2 ^ 13 :=
    (pow_le_pow_left₀ (Real.exp_pos 1).le one.le 9).trans (by norm_num)
  have five : Real.exp 1 ^ 5 ≤ 2 ^ 8 :=
    (pow_le_pow_left₀ (Real.exp_pos 1).le one.le 5).trans (by norm_num)
  have power : (v : ℝ) ^ 7000000 ≤ 2 ^ (13 * 78 + 8) := by
    calc (v : ℝ) ^ 7000000 ≤ Real.exp 0.000101 ^ 7000000 := pow_le_pow_left₀ nonneg tick _
      _ = Real.exp ((707 : ℕ) * 1) := by
        rw [← Real.exp_nat_mul]
        norm_num
      _ = (Real.exp 1 ^ 9) ^ 78 * Real.exp 1 ^ 5 := by
        rw [Real.exp_nat_mul, ← pow_mul, ← pow_add]
      _ ≤ (2 ^ 13) ^ 78 * 2 ^ 8 :=
        mul_le_mul (pow_le_pow_left₀ (by positivity) nine 78) five (by positivity) (by positivity)
      _ = 2 ^ (13 * 78) * 2 ^ 8 := congrArg (· * 2 ^ 8) (pow_mul 2 13 78).symm
      _ = 2 ^ (13 * 78 + 8) := (pow_add 2 (13 * 78) 8).symm
  rw [show 13 * 78 + 8 = 1022 from rfl] at power
  have cast : ((v ^ 7000000 : ℚ) : ℝ) ≤ ((2 ^ 1022 : ℚ) : ℝ) := by
    rw [Rat.cast_pow, Rat.cast_pow, Rat.cast_ofNat]
    exact power
  rw [zpow_ofNat, Nat.cast_pow, Nat.cast_ofNat]
  exact Rat.cast_le.mp cast

noncomputable instance idealTickPowers : @TickPowers ideal := by
  let _ : Libm := ideal
  refine ⟨fun v reads n small => ?_⟩
  obtain ⟨w, tick, least, most⟩ := Rounded.reads_tick
  have same := reads.unique tick
  rw [← same] at least most
  have one : 1 ≤ v := le_trans (by norm_num) least
  obtain ⟨lower, upper⟩ := abs_le.mp small
  have top := tick_power_le one most
  have positive : 0 < v ^ n := zpow_pos (by linarith) n
  have below : v ^ n ≤ (2 ^ 1022 : ℕ) := (zpow_le_zpow_right₀ one upper).trans top
  have above : ((2 ^ 1022 : ℕ) : ℚ)⁻¹ ≤ v ^ n := by
    calc ((2 ^ 1022 : ℕ) : ℚ)⁻¹ ≤ (v ^ (7000000 : ℤ))⁻¹ :=
          inv_anti₀ (zpow_pos (by linarith) _) top
      _ = v ^ (-7000000 : ℤ) := (zpow_neg v 7000000).symm
      _ ≤ v ^ n := zpow_le_zpow_right₀ one lower
  by_cases zero : n = 0
  · refine ⟨1, ?_, by simp [zero]⟩
    rw [show Libm.powi (1.0001 : Binary64) n = 1 from if_pos zero]
    exact reads_one
  · have size : |v ^ n| ≤ (2 ^ 1022 : ℕ) := (abs_of_pos positive).trans_le below
    have rounds := (round_atMost size (by decide)).1
    have result : Libm.powi (1.0001 : Binary64) n = Binary64.round (v ^ n) := by
      obtain ⟨_, _, here⟩ := reads
      refine (if_neg zero).trans ?_
      rw [here]
      exact if_neg fun none => (lt_of_lt_of_le one_pos one).ne' none.1
    rw [← result] at rounds
    refine ⟨_, rounds, ?_⟩
    refine (Machine.nearest_relative_inv (k := 52) le_rfl (by decide) above).trans ?_
    exact div_le_div_of_nonneg_left positive.le (by norm_num) (by norm_num)

end Libm

end TickLiq
