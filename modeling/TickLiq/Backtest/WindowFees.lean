import TickLiq.Backtest.Windows
import TickLiq.Math.Libm

/-!
# What two windows pay

A replay adds up its fees in `f64`, one row after the other. A row without growth adds a zero,
and so a first window without growth leaves no trace. Where it has some, the second window
makes a wrap of it, or drops it, and a position that is paid by the unit shows the difference.
-/
namespace TickLiq

open Machine (KeyedRows saturate steppedGrowth wrappingSub Binary64)
open Machine.Binary64 (Reads natCast_atMost reads_natCast reads_zero reads_one reads_round_small
  round_atMost)

variable {K : Type} [F64 K]

namespace DbBacktestInput

/-- The fees for growth of token B alone. -/
def feesB (input : DbBacktestInput K) (delta : ℕ) : K :=
  delta / F64.twoPow64 * input.positionLiquidity / F64.tokenScale input.decimalsB

/-- The fees for a column of readings of token B, on top of what has been paid. -/
def paidFor (input : DbBacktestInput K) (paid : K) : ℕ → List ℕ → K
  | _, [] => paid
  | b, reading :: readings =>
    paidFor input (paid + input.feesB (feeGrowthDelta b reading)) reading readings

theorem paidFor_append (input : DbBacktestInput K) (paid : K) (b : ℕ) (readings more : List ℕ) :
    input.paidFor paid b (readings ++ more) = input.paidFor (input.paidFor paid b readings)
      ((b :: readings).getLast (List.cons_ne_nil b readings)) more := by
  induction readings generalizing paid b with
  | nil => rfl
  | cons reading readings ih =>
    rw [List.cons_append, paidFor, paidFor, ih,
      List.getLast_cons (List.cons_ne_nil reading readings)]

/-- What the types of an input admit: a `u128` of liquidity and `u8`s of decimals. -/
structure Typed (input : DbBacktestInput K) : Prop where
  liquidity : input.positionLiquidity < 2 ^ 128
  decimalsA : input.decimalsA ≤ 255
  decimalsB : input.decimalsB ≤ 255

end DbBacktestInput

/-! ### The fee of one unit -/

/-- What one unit of liquidity is paid: the growth itself, rounded twice. -/
def unitFee (delta : ℕ) : ℚ := Machine.nearest (Machine.nearest delta / (2 ^ 64 : ℕ))

theorem one_le_two_pow_64 : (1 : ℚ) ≤ (2 ^ 64 : ℕ) := Nat.one_le_cast.mpr Nat.one_le_two_pow

theorem unitFee_nonneg (delta : ℕ) : 0 ≤ unitFee delta := by
  have growth := Machine.nearest_nonneg (Nat.cast_nonneg (α := ℚ) delta)
  exact Machine.nearest_nonneg (div_nonneg growth (Nat.cast_nonneg _))

/-- Each of the two roundings doubles it at most. -/
theorem unitFee_le (delta : ℕ) : unitFee delta ≤ 4 * delta / (2 ^ 64 : ℕ) := by
  have unit := one_pos.trans_le one_le_two_pow_64
  have last : 1 / Machine.unitsPerOne ≤ 1 / (2 ^ 64 : ℕ) := by
    apply one_div_le_one_div_of_le unit
    rw [Machine.unitsPerOne]
    exact Nat.cast_le.mpr (pow_le_pow_right₀ one_le_two (by decide))
  rcases Nat.eq_zero_or_pos delta with zero | positive
  · have none : Machine.nearest 0 = 0 := Machine.nearest_of_representable reads_zero.representable
    rw [unitFee, zero, Nat.cast_zero, none, zero_div, none, mul_zero, zero_div]
  · have whole : (1 : ℚ) ≤ delta := Nat.one_le_cast.mpr positive
    have small : 1 / Machine.unitsPerOne ≤ 1 :=
      last.trans (div_le_one_of_le₀ one_le_two_pow_64 unit.le)
    have growth := Machine.nearest_le_double (q := delta) (Or.inr (small.trans whole))
    have least : 1 ≤ Machine.nearest delta := Machine.le_nearest reads_one.representable whole
    have quotient := Machine.nearest_le_double (q := Machine.nearest delta / (2 ^ 64 : ℕ))
      (Or.inr (last.trans (div_le_div_of_nonneg_right least unit.le)))
    refine quotient.trans ?_
    rw [← mul_div_assoc]
    apply div_le_div_of_nonneg_right _ unit.le
    linarith

theorem share_le {n e : ℕ} (bound : n ≤ 2 ^ (e + 61)) :
    8 * (n : ℚ) / (2 ^ 64 : ℕ) ≤ (2 ^ e : ℕ) := by
  have whole : 8 * n ≤ 2 ^ e * 2 ^ 64 := by
    rw [pow_add] at bound
    omega
  rw [div_le_iff₀ (one_pos.trans_le one_le_two_pow_64), ← Nat.cast_mul]
  exact_mod_cast whole

theorem le_unitFee {delta : ℕ} (large : 2 ^ 127 ≤ delta) : ((2 ^ 63 : ℕ) : ℚ) ≤ unitFee delta := by
  have unit := one_pos.trans_le one_le_two_pow_64
  have growth := Machine.le_nearest (Machine.representable_two_pow 127) (Nat.cast_le.mpr large)
  apply Machine.le_nearest (Machine.representable_two_pow 63)
  rw [le_div_iff₀ unit, ← Nat.cast_mul, ← pow_add]
  exact growth

/-- Up to `2^53` units nothing is rounded. -/
theorem unitFee_exact {delta : ℕ} (small : delta ≤ 2 ^ 53) : unitFee delta = delta / 2 ^ 64 := by
  have growth := Machine.nearest_of_representable (reads_natCast small).representable
  have bits : |(delta : ℤ)| ≤ 2 ^ 53 := by
    rw [Nat.abs_cast]
    exact_mod_cast small
  have quotient := Machine.representable_shift bits (show 64 ≤ 1074 by decide)
  rw [Int.cast_natCast] at quotient
  rw [unitFee, growth, Nat.cast_pow, Nat.cast_ofNat, Machine.nearest_of_representable quotient]

/-! ### Rows in `f64` -/

variable [Libm]

section Rows

variable [Libm.Lawful] {input : DbBacktestInput Binary64} (typed : input.Typed)
include typed

omit [Libm] [Libm.Lawful] in
theorem reads_positionLiquidity : ∃ l, Reads (input.positionLiquidity : Binary64) l :=
  ⟨_, (natCast_atMost typed.liquidity.le (by decide)).1⟩

/-- No price of a pool is infinite in the tokens' own units. -/
theorem reads_uiPrice {t : PoolTickRow} (fits : t.sqrtPrice < 2 ^ 128) :
    ∃ v, Reads (input.uiPrice t) v := by
  have factor := Rounded.uiFactor_atMost typed.decimalsA typed.decimalsB
  obtain ⟨v, price, _⟩ := (Rounded.sqrtQ64ToPrice_atMost fits).mul factor (by decide)
  rw [DbBacktestInput.uiPrice, DbBacktestInput.uiFactor, Rounded.sqrtQ64ToPrice_eq,
    Rounded.uiFactor_eq]
  exact ⟨v, price⟩

theorem feesB_zero : input.feesB 0 = 0 := by
  obtain ⟨l, liquidity⟩ := reads_positionLiquidity typed
  obtain ⟨scale, reads, positive, _⟩ := Rounded.reads_tokenScale typed.decimalsB
  have zero : ((0 : ℕ) : Binary64) = 0 := (reads_natCast (Nat.zero_le _)).eq_of_eq reads_zero
  rw [DbBacktestInput.feesB, Rounded.twoPow64_eq, Rounded.tokenScale_eq, zero,
    Rounded.reads_twoPow64.zero_div (Nat.cast_ne_zero.mpr (by decide)), liquidity.zero_mul,
    reads.zero_div positive.ne']

/-- A row whose token A stood still pays for token B, whatever the price. -/
theorem rowFees_still {s t : PoolTickRow} (fits : t.sqrtPrice < 2 ^ 128)
    (still : t.feeGrowthGlobalA = s.feeGrowthGlobalA) :
    input.rowFees s t = input.feesB (feeGrowthDelta s.feeGrowthGlobalB t.feeGrowthGlobalB) := by
  obtain ⟨l, liquidity⟩ := reads_positionLiquidity typed
  obtain ⟨scale, reads, positive, _⟩ := Rounded.reads_tokenScale typed.decimalsA
  obtain ⟨v, price⟩ := reads_uiPrice typed fits
  have zero : ((0 : ℕ) : Binary64) = 0 := (reads_natCast (Nat.zero_le _)).eq_of_eq reads_zero
  have none : feeGrowthDelta s.feeGrowthGlobalA t.feeGrowthGlobalA = 0 := by
    rw [still]
    exact Machine.wrappingSub_self
  rw [DbBacktestInput.rowFees, DbBacktestInput.feesB]
  simp only [none, Rounded.twoPow64_eq, Rounded.tokenScale_eq]
  rw [zero, Rounded.reads_twoPow64.zero_div (Nat.cast_ne_zero.mpr (by decide)),
      liquidity.zero_mul, reads.zero_div positive.ne', price.zero_mul]
  exact Machine.Binary64.zero_add _

theorem streamFees_column {rows : List PoolTickRow} (pool : PoolRows rows) (paid : Binary64) {b : ℕ}
    {readings : List ℕ} (column : rows.map (·.feeGrowthGlobalB) = b :: readings) :
    input.streamFees paid rows = input.paidFor paid b readings := by
  induction rows generalizing paid b readings with
  | nil => cases column
  | cons s rows ih =>
    obtain ⟨head, tail⟩ := List.cons.inj column
    cases rows with
    | nil =>
      cases tail
      rfl
    | cons t rows =>
      have here := pool s (by simp)
      have next := pool t (by simp)
      cases readings with
      | nil => cases tail
      | cons reading readings =>
        have grown := (List.cons.inj tail).1
        have fees := rowFees_still typed next.2.1 (next.2.2.trans here.2.2.symm)
        simp only [head, grown] at fees
        rw [DbBacktestInput.streamFees, if_pos next.1, fees, DbBacktestInput.paidFor]
        exact ih (fun t member => pool t (List.mem_cons_of_mem s member)) _ tail

/-- Readings of zero add nothing. -/
theorem paidFor_idle {gains : List ℕ} (zero : ∀ gain ∈ gains, gain = 0) (paid : Binary64)
    (top : ℕ) (more : List ℕ) :
    input.paidFor paid 0 (saturate top 0 gains ++ more) = input.paidFor paid 0 more := by
  induction gains with
  | nil => rfl
  | cons gain gains ih =>
    have still : min (0 + gain) top = 0 := by
      rw [zero gain (List.mem_cons_self ..)]
      exact Nat.zero_min top
    have none : feeGrowthDelta 0 0 = 0 := Machine.wrappingSub_self
    rw [saturate, List.cons_append, still, DbBacktestInput.paidFor, none, feesB_zero typed]
    rw [show paid + (0 : Binary64) = paid from Machine.Binary64.add_zero paid]
    exact ih fun gain member => zero gain (List.mem_cons_of_mem _ member)

end Rows

/-- The two streams give every position the same fees. -/
def SameFees (rows rows' : List PoolTickRow) : Prop :=
  ∀ checks (input : DbBacktestInput Binary64) result result', input.Typed →
    runDbBacktest checks input rows = .ok result →
    runDbBacktest checks input rows' = .ok result' → result.totalFeesUsd = result'.totalFeesUsd

theorem sameFees_refl (rows : List PoolTickRow) : SameFees rows rows := by
  intro checks input result result' _ returned returned'
  cases returned.symm.trans returned'
  rfl

/-! ### A position of one unit -/

/-- A position in tokens without decimals. -/
def windowInput (positionLiquidity : ℕ) : DbBacktestInput Binary64 :=
  { initialValueUsd := 1
    entryPrice := 1
    priceLower := 0.5
    priceUpper := 1.5
    feeRateBps := 1
    tickSpacing := 1
    positionLiquidity := positionLiquidity
    decimalsA := 0
    decimalsB := 0
    rebalanceCfg := { rebalanceOutOfRange := true, nearEdgeTicks := 0, minNetPnlUsd := 0 }
    rangeFactorLower := 0.5
    rangeFactorUpper := 1.5 }

section Unit

variable [Libm.Lawful]

theorem unit_feesB {delta : ℕ} (fits : delta ≤ 2 ^ 128) :
    Reads ((windowInput 1).feesB delta) (unitFee delta) := by
  obtain ⟨growth, size⟩ := natCast_atMost fits (by decide)
  have unit := one_le_two_pow_64
  have quotient : |Machine.nearest delta / (2 ^ 64 : ℕ)| ≤ ((2 ^ 128 : ℕ) : ℚ) := by
    rw [abs_div, abs_of_pos (one_pos.trans_le unit)]
    exact (div_le_self (abs_nonneg _) unit).trans size
  have reads := (round_atMost quotient (by decide)).1
  rw [← growth.div Rounded.reads_twoPow64 (one_pos.trans_le unit).ne'] at reads
  have one : ((1 : ℕ) : Binary64) = 1 := by
    have cast := reads_natCast (show 1 ≤ 2 ^ 53 by decide)
    rw [Nat.cast_one] at cast
    exact cast.eq_of_eq reads_one
  have scale : Rounded.tokenScale 0 = 1 := Libm.Lawful.powi_zero _
  rw [DbBacktestInput.feesB, Rounded.twoPow64_eq, Rounded.tokenScale_eq]
  simp only [windowInput]
  rw [one, reads.mul_one, scale, reads.div_one]
  exact reads

/-- The sum of the fees lies between what was paid before and eight times the growth more. -/
theorem unit_paidFor {paid : Binary64} {s : ℚ} {b : ℕ} (readings : List ℕ) (reads : Reads paid s)
    (nonneg : 0 ≤ s)
    (size : s + 8 * steppedGrowth (2 ^ 128) b readings / (2 ^ 64 : ℕ) ≤ (2 ^ 100 : ℕ)) :
    ∃ a, Reads ((windowInput 1).paidFor paid b readings) a ∧ s ≤ a ∧
      a ≤ s + 8 * steppedGrowth (2 ^ 128) b readings / (2 ^ 64 : ℕ) := by
  induction readings generalizing paid s b with
  | nil => exact ⟨s, reads, le_rfl, by simp [steppedGrowth]⟩
  | cons reading readings ih =>
    have unit := one_pos.trans_le one_le_two_pow_64
    have fits : feeGrowthDelta b reading ≤ 2 ^ 128 := (Nat.mod_lt _ (by decide)).le
    have fee := unit_feesB fits
    have positive := unitFee_nonneg (feeGrowthDelta b reading)
    have most := unitFee_le (feeGrowthDelta b reading)
    rw [steppedGrowth, Nat.cast_add, mul_add, add_div] at size ⊢
    set step : ℚ := 8 * (wrappingSub (2 ^ 128) reading b : ℕ) / (2 ^ 64 : ℕ) with named
    set rest : ℚ := 8 * (steppedGrowth (2 ^ 128) reading readings : ℕ) / (2 ^ 64 : ℕ)
    have later : 0 ≤ rest := by positivity
    -- one unit of growth costs at most half of its share, the rest is for rounding
    have twice : 2 * unitFee (feeGrowthDelta b reading) ≤ step := by
      rw [named]
      refine (mul_le_mul_of_nonneg_left most (by norm_num)).trans_eq ?_
      rw [feeGrowthDelta]
      ring
    -- a rounded sum is not below its first term, nor above it by more than twice the second
    have rounded := Machine.nearest_add_le reads.representable positive
    have above := Machine.le_nearest reads.representable (le_add_of_nonneg_right positive)
    have sum : |s + unitFee (feeGrowthDelta b reading)| ≤ (2 ^ 100 : ℕ) := by
      rw [abs_of_nonneg (by linarith)]
      linarith
    have paid' := (round_atMost sum (by decide)).1
    rw [← reads.add fee] at paid'
    have room : Machine.nearest (s + unitFee (feeGrowthDelta b reading)) + rest ≤ (2 ^ 100 : ℕ) := by
      linarith
    obtain ⟨a, total, least, bound⟩ := ih paid' (by linarith) room
    change a ≤ _ + rest at bound
    exact ⟨a, total, by linarith, by linarith⟩

theorem unit_paidFor_exact {paid : Binary64} {n b : ℕ} (readings : List ℕ)
    (reads : Reads paid (n / 2 ^ 64))
    (small : n + steppedGrowth (2 ^ 128) b readings ≤ 2 ^ 53) :
    Reads ((windowInput 1).paidFor paid b readings)
      ((n + steppedGrowth (2 ^ 128) b readings : ℕ) / 2 ^ 64) := by
  induction readings generalizing paid n b with
  | nil => exact reads
  | cons reading readings ih =>
    rw [steppedGrowth, ← Nat.add_assoc] at small ⊢
    have fee := unit_feesB (show feeGrowthDelta b reading ≤ 2 ^ 128 from
      (Nat.mod_lt _ (by decide)).le)
    have few : feeGrowthDelta b reading ≤ 2 ^ 53 := by
      unfold feeGrowthDelta
      omega
    rw [unitFee_exact few] at fee
    -- below 2 ^ 53 units every sum on the way is a double
    have bits : |((n + feeGrowthDelta b reading : ℕ) : ℤ)| ≤ 2 ^ 53 := by
      rw [Nat.abs_cast]
      exact_mod_cast (Nat.le_add_right _ _).trans small
    have representable := Machine.representable_shift bits (show 64 ≤ 1074 by decide)
    have size : |((n + feeGrowthDelta b reading : ℕ) : ℚ) / 2 ^ 64| ≤ 2 ^ 53 := by
      rw [abs_of_nonneg (by positivity), div_le_iff₀ (by positivity)]
      have cast : ((n + feeGrowthDelta b reading : ℕ) : ℚ) ≤ 2 ^ 53 := by
        exact_mod_cast (Nat.le_add_right _ _).trans small
      linarith
    have sum := reads_round_small size
    rw [Int.cast_natCast] at representable
    rw [Machine.nearest_of_representable representable, Nat.cast_add, add_div, ← reads.add fee,
      ← add_div, ← Nat.cast_add] at sum
    exact ih sum small

/-- A counter that saturates and never starts anew pays eight times its growth at most. -/
theorem unit_paidFor_saturate {gains : List ℕ} (fits : gains.sum < 2 ^ 120) :
    ∃ a, Reads ((windowInput 1).paidFor 0 0 (saturate (2 ^ 128 - 1) 0 gains)) a ∧
      0 ≤ a ∧ a ≤ 8 * gains.sum / (2 ^ 64 : ℕ) := by
  have growth := Machine.steppedGrowth_saturate gains (show 2 ^ 128 - 1 < 2 ^ 128 by decide)
    (Nat.zero_le _)
  have whole : steppedGrowth (2 ^ 128) 0 (saturate (2 ^ 128 - 1) 0 gains) = gains.sum := by omega
  have bounds := unit_paidFor (b := 0) (saturate (2 ^ 128 - 1) 0 gains) reads_zero le_rfl
  rw [whole, zero_add] at bounds
  refine bounds ((share_le (e := 59) fits.le).trans ?_)
  norm_num

/-- Where a counter starts anew below its last reading, the wrap alone pays `2^63`. -/
theorem unit_paidFor_restart {gains more : List ℕ} {next : ℕ} (below : next < gains.sum)
    (fits : gains.sum < 2 ^ 120) (fits' : steppedGrowth (2 ^ 128) next more < 2 ^ 120) :
    ∃ a, Reads ((windowInput 1).paidFor 0 0 (saturate (2 ^ 128 - 1) 0 gains ++ next :: more)) a ∧
      ((2 ^ 63 : ℕ) : ℚ) ≤ a := by
  obtain ⟨s, before, nonneg, most⟩ := unit_paidFor_saturate fits
  -- the fall is read as a wrap of the counter
  have wrapped : feeGrowthDelta gains.sum next = 2 ^ 128 + next - gains.sum := by
    rw [feeGrowthDelta, Machine.wrappingSub_eq (by omega) (by omega), if_neg (by omega)]
  have last := Machine.saturate_last gains (Nat.zero_le (2 ^ 128 - 1))
  rw [Nat.zero_add, Nat.min_eq_left (by omega)] at last
  rw [DbBacktestInput.paidFor_append, last, DbBacktestInput.paidFor]
  have fee := unit_feesB (show feeGrowthDelta gains.sum next ≤ 2 ^ 128 by omega)
  have large := le_unitFee (show 2 ^ 127 ≤ feeGrowthDelta gains.sum next by omega)
  have bound : unitFee (feeGrowthDelta gains.sum next) ≤ (2 ^ 67 : ℕ) := by
    have share := share_le (n := feeGrowthDelta gains.sum next) (e := 67) (by omega)
    refine (unitFee_le _).trans (le_trans ?_ share)
    apply div_le_div_of_nonneg_right _ (Nat.cast_nonneg _)
    exact mul_le_mul_of_nonneg_right (by norm_num) (Nat.cast_nonneg _)
  have start := most.trans (share_le (e := 59) fits.le)
  have sum : |s + unitFee (feeGrowthDelta gains.sum next)| ≤ (2 ^ 68 : ℕ) := by
    rw [abs_of_nonneg (add_nonneg nonneg (unitFee_nonneg _))]
    norm_num at start bound ⊢
    linarith
  -- the sum stays far below overflow, so it is rounded and not infinite
  obtain ⟨paid, size⟩ := round_atMost sum (by decide)
  have least := Machine.le_nearest (Machine.representable_two_pow 63)
    (large.trans (le_add_of_nonneg_left nonneg))
  rw [← before.add fee] at paid
  -- nothing that is paid later makes the sum smaller
  have room : Machine.nearest (s + unitFee (feeGrowthDelta gains.sum next)) +
      8 * steppedGrowth (2 ^ 128) next more / (2 ^ 64 : ℕ) ≤ (2 ^ 100 : ℕ) := by
    have share := share_le (e := 59) fits'.le
    have value := (le_abs_self _).trans size
    refine (add_le_add value share).trans ?_
    norm_num
  obtain ⟨a, total, above, _⟩ := unit_paidFor more paid ((Nat.cast_nonneg _).trans least) room
  exact ⟨a, total, least.trans above⟩

/-- Starting anew below the last reading shows. -/
theorem restart_differs {gains more readings : List ℕ} {next : ℕ} (below : next < gains.sum)
    (fits : (gains ++ more).sum < 2 ^ 120)
    (fits' : steppedGrowth (2 ^ 128) next readings < 2 ^ 120) :
    (windowInput 1).paidFor 0 0 (saturate (2 ^ 128 - 1) 0 gains ++ next :: readings) ≠
      (windowInput 1).paidFor 0 0 (saturate (2 ^ 128 - 1) 0 (gains ++ more)) := by
  intro same
  have sums : (gains ++ more).sum = gains.sum + more.sum := List.sum_append
  obtain ⟨a, windows, large⟩ := unit_paidFor_restart below (by omega) fits'
  obtain ⟨a', whole, _, small⟩ := unit_paidFor_saturate fits
  rw [same] at windows
  rw [windows.unique whole] at large
  have bound := large.trans (small.trans (share_le (e := 59) fits.le))
  norm_num at bound

/-- Where `f64` counts every unit, dropping those of the first run shows. -/
theorem dropped_differs {gains rest : List ℕ} {gain : ℕ} (some : 0 < gains.sum)
    (above : gains.sum ≤ gain) (fits : (gains ++ gain :: rest).sum ≤ 2 ^ 53) :
    (windowInput 1).paidFor 0 0
        (saturate (2 ^ 128 - 1) 0 gains ++ saturate (2 ^ 128 - 1) 0 (gain :: rest)) ≠
      (windowInput 1).paidFor 0 0 (saturate (2 ^ 128 - 1) 0 (gains ++ gain :: rest)) := by
  intro same
  have sums : (gains ++ gain :: rest).sum = gains.sum + (gain + rest.sum) := by simp
  have single : min (0 + gain) (2 ^ 128 - 1) = gain := by omega
  have counted := Machine.steppedGrowth_saturate rest (b := gain)
    (show 2 ^ 128 - 1 < 2 ^ 128 by decide) (by omega)
  have whole := Machine.steppedGrowth_saturate (gains ++ gain :: rest)
    (show 2 ^ 128 - 1 < 2 ^ 128 by decide) (Nat.zero_le _)
  have restarted := Machine.steppedGrowth_restart gains (saturate (2 ^ 128 - 1) gain rest)
    (show 2 ^ 128 - 1 < 2 ^ 128 by decide) (show gain < 2 ^ 128 by omega)
  rw [if_pos (by omega)] at restarted
  -- so small that f64 sums them exactly
  have start : Reads (0 : Binary64) (((0 : ℕ) : ℚ) / 2 ^ 64) := by
    rw [Nat.cast_zero, zero_div]
    exact reads_zero
  have windows := unit_paidFor_exact (b := 0)
    (saturate (2 ^ 128 - 1) 0 gains ++ gain :: saturate (2 ^ 128 - 1) gain rest) start (by omega)
  have one := unit_paidFor_exact (b := 0) (saturate (2 ^ 128 - 1) 0 (gains ++ gain :: rest)) start
    (by omega)
  rw [saturate, single] at same
  rw [same] at windows
  have equal := windows.unique one
  rw [div_left_inj' (by positivity), Nat.cast_inj] at equal
  omega

end Unit

/-! ### Columns of readings -/

section Columns

variable [Libm.Lawful]

/-- Gains of zero leave no trace, with a baseline row after them or without. -/
theorem paidFor_fits {input : DbBacktestInput Binary64} (typed : input.Typed) {gains : List ℕ}
    (zero : ∀ gain ∈ gains, gain = 0) (top : ℕ) (more : List ℕ) :
    input.paidFor 0 0 (saturate top 0 gains ++ saturate top 0 more) =
        input.paidFor 0 0 (saturate top 0 (gains ++ more)) ∧
      input.paidFor 0 0 (saturate top 0 gains ++ 0 :: saturate top 0 more) =
        input.paidFor 0 0 (saturate top 0 (gains ++ more)) := by
  have none : gains.sum = 0 := List.sum_eq_zero_iff.mpr zero
  have whole : saturate top 0 (gains ++ more) = saturate top 0 gains ++ saturate top 0 more := by
    rw [Machine.saturate_append _ _ (Nat.zero_le _), none, Nat.add_zero, Nat.zero_min]
  have baseline : saturate top 0 [0] = [0] := by
    rw [saturate, Nat.add_zero, Nat.zero_min, saturate]
  refine ⟨by rw [whole], ?_⟩
  have still := paidFor_idle typed (show ∀ gain ∈ [0], gain = 0 by simp) 0 top (saturate top 0 more)
  rw [baseline] at still
  rw [whole, paidFor_idle typed zero, paidFor_idle typed zero]
  exact still

variable {rows rows' : List PoolTickRow} {readings readings' : List ℕ} (pool : PoolRows rows)
  (pool' : PoolRows rows') (column : rows.map (·.feeGrowthGlobalB) = 0 :: readings)
  (column' : rows'.map (·.feeGrowthGlobalB) = 0 :: readings')
include pool pool' column column'

theorem sameFees_of_column (same : ∀ input : DbBacktestInput Binary64, input.Typed →
    input.paidFor 0 0 readings = input.paidFor 0 0 readings') : SameFees rows rows' := by
  intro checks input result result' typed returned returned'
  rw [runDbBacktest_streamFees returned, runDbBacktest_streamFees returned',
    streamFees_column typed pool 0 column, streamFees_column typed pool' 0 column']
  exact same input typed

theorem unit_of_sameFees (same : SameFees rows rows') :
    (windowInput 1).paidFor 0 0 readings = (windowInput 1).paidFor 0 0 readings' := by
  have spacing : 0 < (windowInput 1).tickSpacing := by decide
  have typed : (windowInput 1).Typed := ⟨by decide, by decide, by decide⟩
  have listed : rows ≠ [] := by
    intro empty
    rw [empty] at column
    cases column
  have listed' : rows' ≠ [] := by
    intro empty
    rw [empty] at column'
    cases column'
  obtain ⟨result, returned⟩ := runDbBacktest_unchecked spacing listed
  obtain ⟨result', returned'⟩ := runDbBacktest_unchecked spacing listed'
  have equal := same false (windowInput 1) result result' typed returned returned'
  rwa [runDbBacktest_streamFees returned, runDbBacktest_streamFees returned',
    streamFees_column typed pool 0 column, streamFees_column typed pool' 0 column'] at equal

end Columns

/-! ### When two windows pay as one -/

/-- What the candles add to the accumulator before it saturates. -/
def PoolSynthParams.growth (p : PoolSynthParams K) (candles : List (OhlcvCandle K)) : ℕ :=
  (candles.map p.gain).sum

/-- There is only one window, or the first adds no growth. -/
def WindowsFit (p : PoolSynthParams K) (first second : List (OhlcvCandle K)) : Prop :=
  first = [] ∨ second = [] ∨ ∀ c ∈ first, p.gain c = 0

/-- No rounding hides a difference: the growth is below `2^120`, and up to `2^53` if the second
window goes on above the first. -/
def WithinPrecision (p : PoolSynthParams K) (first second : List (OhlcvCandle K)) : Prop :=
  p.growth (first ++ second) < 2 ^ 120 ∧
    (Adjacent first second → ∀ next ∈ second.head?, p.growth first ≤ p.gain next →
      p.growth (first ++ second) ≤ 2 ^ 53)

omit [Libm] in
theorem gains_zero_iff {p : PoolSynthParams K} {candles : List (OhlcvCandle K)} :
    (∀ c ∈ candles, p.gain c = 0) ↔ ∀ gain ∈ candles.map p.gain, gain = 0 := by
  simp

section Compose

variable [Libm.Lawful] {checks : Bool} {first second : List (OhlcvCandle Binary64)}
  {p : PoolSynthParams Binary64}

/-- The fees of two windows next to each other against those of one. -/
theorem dropped_fees (precise : WithinPrecision p first second) (adjacent : Adjacent first second)
    (same : (windowInput 1).paidFor 0 0 (saturate (2 ^ 128 - 1) 0 (first.map p.gain) ++
        saturate (2 ^ 128 - 1) 0 (second.map p.gain)) =
      (windowInput 1).paidFor 0 0 (saturate (2 ^ 128 - 1) 0 ((first ++ second).map p.gain))) :
    ∀ c ∈ first, p.gain c = 0 := by
  rw [gains_zero_iff, ← List.sum_eq_zero_iff]
  by_contra positive
  obtain ⟨fits, exact⟩ := precise
  obtain ⟨c, _, next, head, _⟩ := adjacent
  obtain ⟨rest, split⟩ : ∃ rest, second = next :: rest := by
    cases second with
    | nil => cases head
    | cons next' rest =>
      cases head
      exact ⟨rest, rfl⟩
  have bound := exact ⟨c, ‹_›, next, head, ‹_›⟩ next head
  simp only [PoolSynthParams.growth, List.map_append, split, List.map_cons] at same fits bound
  -- the next candle's own growth may stay below what the first window has counted
  rcases Nat.lt_or_ge (p.gain next) (first.map p.gain).sum with below | above
  · have sums : (first.map p.gain ++ p.gain next :: rest.map p.gain).sum =
        (first.map p.gain).sum + (p.gain next + (rest.map p.gain).sum) := by simp
    have single : min (0 + p.gain next) (2 ^ 128 - 1) = p.gain next := by omega
    have counted := Machine.steppedGrowth_saturate (rest.map p.gain) (b := p.gain next)
      (show 2 ^ 128 - 1 < 2 ^ 128 by decide) (by omega)
    apply restart_differs below fits (show steppedGrowth (2 ^ 128) (p.gain next)
      (saturate (2 ^ 128 - 1) (p.gain next) (rest.map p.gain)) < 2 ^ 120 by omega)
    rw [← same]
    conv_rhs => rw [saturate, single]
  -- or not, and then the growth of the first window is missing in the sum
  · exact dropped_differs (by omega) above (bound above) same

/-- The fees of two windows apart against those of one. -/
theorem kept_fees (precise : WithinPrecision p first second)
    (same : (windowInput 1).paidFor 0 0 (saturate (2 ^ 128 - 1) 0 (first.map p.gain) ++
        0 :: saturate (2 ^ 128 - 1) 0 (second.map p.gain)) =
      (windowInput 1).paidFor 0 0 (saturate (2 ^ 128 - 1) 0 ((first ++ second).map p.gain))) :
    ∀ c ∈ first, p.gain c = 0 := by
  rw [gains_zero_iff, ← List.sum_eq_zero_iff]
  by_contra positive
  have fits := precise.1
  rw [PoolSynthParams.growth] at fits
  rw [List.map_append] at same fits
  have sums : (first.map p.gain ++ second.map p.gain).sum =
      (first.map p.gain).sum + (second.map p.gain).sum := List.sum_append
  have counted := Machine.steppedGrowth_saturate (second.map p.gain) (b := 0)
    (show 2 ^ 128 - 1 < 2 ^ 128 by decide) (Nat.zero_le _)
  exact restart_differs (Nat.pos_of_ne_zero positive) fits (by omega) same

variable {fromDate toDate : ℤ} {part1 part2 whole : List PoolTick}
  (ascending : Ascending (first ++ second)) (inside : InDates fromDate toDate (first ++ second))
  (valid : ∀ c ∈ first ++ second, ValidTimestamp c.timestamp)
  (queried : Queried p.poolAddress fromDate toDate) (liquidity : p.poolLiquidity < 2 ^ 128)
include ascending inside valid queried liquidity

omit [Libm.Lawful] in
theorem whole_read (synthesized : synthesizeTicks checks (first ++ second) p = .ok whole) :
    ∃ written, writePoolTicks KeyedRows.empty whole = .ok (written, whole.length) ∧
      readTicks written p.poolAddress fromDate toDate = .ok (toRows whole) := by
  refine written_reads_back ?_ (synthesizeTicks_u128 synthesized liquidity)
    (synthesizeTicks_chronological valid synthesized ascending) queried
    (synthesizeTicks_within valid synthesized inside)
  intro row member
  cases member

/-- Two windows with candles: what the table reads back as, and when it pays what one would. -/
theorem windows_compose (liquid : 0 < p.poolLiquidity) (listed1 : first ≠ [])
    (listed2 : second ≠ []) (synthesized1 : synthesizeTicks checks first p = .ok part1)
    (synthesized2 : synthesizeTicks checks second p = .ok part2)
    (synthesized : synthesizeTicks checks (first ++ second) p = .ok whole) :
    ∃ early late rows, writePoolTicks KeyedRows.empty part1 = .ok (early, part1.length) ∧
      writePoolTicks early part2 = .ok (late, part2.length) ∧
      readTicks late p.poolAddress fromDate toDate = .ok rows ∧
      ((∀ c ∈ first, p.gain c = 0) → SameFees rows (toRows whole)) ∧
      (WithinPrecision p first second → SameFees rows (toRows whole) →
        ∀ c ∈ first, p.gain c = 0) := by
  obtain ⟨next, rest, split⟩ := List.exists_cons_of_ne_nil listed2
  obtain ⟨baseline, rows, _, _, made⟩ := synthesizeTicks_ok (split ▸ synthesized2)
  rw [made] at synthesized2 ⊢
  obtain ⟨pool', column'⟩ :=
    synthesized_readings liquid (List.append_ne_nil_of_left_ne_nil listed1 second) synthesized
  have pool := windows_pool liquid listed1 synthesized1 synthesized2
  have fits := fun (zero : ∀ c ∈ first, p.gain c = 0) (input : DbBacktestInput Binary64)
      (typed : input.Typed) => paidFor_fits typed (gains_zero_iff.mp zero) (2 ^ 128 - 1)
    (second.map p.gain)
  -- a candle one second before the second window takes the slot of its baseline row
  by_cases adjacent : Adjacent first second
  · obtain ⟨early, late, wrote1, wrote2, read⟩ :=
      adjacent_read ascending valid synthesized2 synthesized1 inside queried liquidity adjacent
    have column := dropped_column liquid listed1 synthesized1 synthesized2
    -- the rows without that baseline are among the rows with it
    have fewer : PoolRows (toRows (part1 ++ rows)) := by
      intro t member
      apply pool t
      rw [toRows, List.map_append] at member ⊢
      rcases List.mem_append.mp member with left | right
      · exact List.mem_append_left _ left
      · exact List.mem_append_right _ (List.mem_cons_of_mem _ right)
    refine ⟨early, late, _, wrote1, wrote2, read, ?_, ?_⟩
    · intro zero
      apply sameFees_of_column fewer pool' column column'
      intro input typed
      rw [List.map_append]
      exact (fits zero input typed).1
    · intro precise same
      exact dropped_fees precise adjacent (unit_of_sameFees fewer pool' column column' same)
  · obtain ⟨early, late, wrote1, wrote2, read⟩ :=
      apart_read ascending valid synthesized2 synthesized1 inside queried liquidity adjacent
    have column := kept_column liquid listed1 synthesized1 synthesized2
    refine ⟨early, late, _, wrote1, wrote2, read, ?_, ?_⟩
    · intro zero
      apply sameFees_of_column pool pool' column column'
      intro input typed
      rw [List.map_append]
      exact (fits zero input typed).2
    · intro precise same
      exact kept_fees precise (unit_of_sameFees pool pool' column column' same)

end Compose

/-- Backfilling two windows in turn gives every position the fees of one backfill where the first
adds no growth or one is empty, whatever the split, and only there where `f64` can tell. -/
theorem windows_compose_iff [Libm.Lawful] (first second : List (OhlcvCandle Binary64))
    (p : PoolSynthParams Binary64) (fromDate toDate : ℤ) (ascending : Ascending (first ++ second))
    (inside : InDates fromDate toDate (first ++ second))
    (valid : ∀ c ∈ first ++ second, ValidTimestamp c.timestamp)
    (queried : Queried p.poolAddress fromDate toDate) (liquidity : p.poolLiquidity < 2 ^ 128)
    (liquid : 0 < p.poolLiquidity) :
    (∀ checks part1 part2 whole, synthesizeTicks checks first p = .ok part1 →
      synthesizeTicks checks second p = .ok part2 →
      synthesizeTicks checks (first ++ second) p = .ok whole →
      ∃ early late written rows rows',
        writePoolTicks KeyedRows.empty part1 = .ok (early, part1.length) ∧
        writePoolTicks early part2 = .ok (late, part2.length) ∧
        readTicks late p.poolAddress fromDate toDate = .ok rows ∧
        writePoolTicks KeyedRows.empty whole = .ok (written, whole.length) ∧
        readTicks written p.poolAddress fromDate toDate = .ok rows' ∧
        (WindowsFit p first second → SameFees rows rows') ∧
        (WithinPrecision p first second → (SameFees rows rows' ↔ WindowsFit p first second))) ∧
    (0 < p.tickSpacing → ∃ part1 part2 whole, synthesizeTicks false first p = .ok part1 ∧
      synthesizeTicks false second p = .ok part2 ∧
      synthesizeTicks false (first ++ second) p = .ok whole) := by
  constructor
  · intro checks part1 part2 whole synthesized1 synthesized2 synthesized
    obtain ⟨written, wrote, read⟩ :=
      whole_read ascending inside valid queried liquidity synthesized
    by_cases listed1 : first = []
    · -- nothing is written before the second window, which is the whole list
      subst listed1
      cases synthesized1
      rw [List.nil_append] at synthesized
      cases synthesized2.symm.trans synthesized
      exact ⟨KeyedRows.empty, written, written, _, _, rfl, wrote, read, wrote, read,
        fun _ => sameFees_refl _, fun _ => iff_of_true (sameFees_refl _) (Or.inl rfl)⟩
    by_cases listed2 : second = []
    · subst listed2
      cases synthesized2
      rw [List.append_nil] at synthesized
      cases synthesized1.symm.trans synthesized
      exact ⟨written, written, written, _, _, wrote, rfl, read, wrote, read,
        fun _ => sameFees_refl _, fun _ => iff_of_true (sameFees_refl _) (Or.inr (Or.inl rfl))⟩
    obtain ⟨early, late, rows, wrote1, wrote2, read', same, told⟩ :=
      windows_compose ascending inside valid queried liquidity liquid listed1 listed2 synthesized1
        synthesized2 synthesized
    have fits : WindowsFit p first second ↔ ∀ c ∈ first, p.gain c = 0 := by
      rw [WindowsFit, iff_false_intro listed1, iff_false_intro listed2, false_or, false_or]
    refine ⟨early, late, written, rows, toRows whole, wrote1, wrote2, read', wrote, read, ?_, ?_⟩
    · exact fun fit => same (fits.mp fit)
    · intro precise
      exact ⟨fun equal => fits.mpr (told precise equal), fun fit => same (fits.mp fit)⟩
  · intro positive
    obtain ⟨part1, synthesized1⟩ := synthesizeTicks_unchecked positive first
    obtain ⟨part2, synthesized2⟩ := synthesizeTicks_unchecked positive second
    obtain ⟨whole, synthesized⟩ := synthesizeTicks_unchecked positive (first ++ second)
    exact ⟨part1, part2, whole, synthesized1, synthesized2, synthesized⟩

/-! ### Two days -/

/-- What a replay reads after two backfills in turn, and after one of both. -/
def Backfilled (first second : List (OhlcvCandle Binary64)) (p : PoolSynthParams Binary64)
    (fromDate toDate : ℤ) (rows rows' : List PoolTickRow) : Prop :=
  ∃ early late written part1 part2 whole, synthesizeTicks false first p = .ok part1 ∧
    synthesizeTicks false second p = .ok part2 ∧
    synthesizeTicks false (first ++ second) p = .ok whole ∧
    writePoolTicks KeyedRows.empty part1 = .ok (early, part1.length) ∧
    writePoolTicks early part2 = .ok (late, part2.length) ∧
    readTicks late p.poolAddress fromDate toDate = .ok rows ∧
    writePoolTicks KeyedRows.empty whole = .ok (written, whole.length) ∧
    readTicks written p.poolAddress fromDate toDate = .ok rows'

def windowPool : PoolSynthParams Binary64 :=
  { poolAddress := "pool"
    feeRateBps := 1
    poolLiquidity := 2 ^ 64
    decimalsA := 0
    decimalsB := 0
    tickSpacing := 1 }

/-- One unit of growth in a day. -/
def tradedDay (timestamp : ℤ) : OhlcvCandle Binary64 := ⟨timestamp, 1, (10000 : ℕ)⟩

def idleDay (timestamp : ℤ) : OhlcvCandle Binary64 := ⟨timestamp, 1, 0⟩

omit [Libm] in
theorem windowPool_queried : Queried windowPool.poolAddress 0 2 :=
  ⟨by decide, by decide, by decide, by decide⟩

section Days

variable [Libm.Lawful]

theorem windowPool_dfg : windowPool.dfg (10000 : ℕ) = 1 := by
  have scale : Rounded.tokenScale 0 = 1 := Libm.Lawful.powi_zero _
  have unit : ((10000 : ℕ) * (1 / (10000 : ℕ)) * 1 / (2 ^ 64 : ℕ) * Rounded.twoPow64 :
      Binary64) = 1 := by
    decide +kernel
  rw [PoolSynthParams.dfg, PoolSynthParams.feeRate, Rounded.tokenScale_eq, Rounded.twoPow64_eq]
  simp only [windowPool]
  rw [scale]
  exact unit

theorem tradedDay_gain (timestamp : ℤ) : windowPool.gain (tradedDay timestamp) = 1 := by
  have volume : (0 : Binary64) < (10000 : ℕ) := by decide +kernel
  have finite : (1 : Binary64).isFinite = true := by decide +kernel
  have positive : (0 : Binary64) < 1 := by decide +kernel
  have small : ¬((2 ^ 128 - 1 : ℕ) : Binary64) ≤ 1 := by decide +kernel
  have whole : (1 : Binary64).toU128 = 1 := by decide +kernel
  rw [PoolSynthParams.gain]
  simp only [tradedDay, windowPool_dfg]
  rw [if_pos ⟨volume, finite, positive⟩, if_neg small]
  show min ((1 : Binary64).toU128) _ = 1
  rw [whole]
  rfl

theorem windowInput_feesB (positionLiquidity delta : ℕ) :
    (windowInput positionLiquidity).feesB delta =
      (delta : Binary64) / Rounded.twoPow64 * (positionLiquidity : Binary64) / 1 := by
  have scale : Rounded.tokenScale 0 = 1 := Libm.Lawful.powi_zero _
  rw [DbBacktestInput.feesB, Rounded.twoPow64_eq, Rounded.tokenScale_eq]
  simp only [windowInput]
  rw [scale]

end Days

omit [Libm] in
/-- Two windows of which only the second has volume. -/
theorem windows_compose_sample : ∃ rows rows',
    @Backfilled Libm.ideal [idleDay 3600] [tradedDay 90000] windowPool 0 2 rows rows' ∧
      @SameFees Libm.ideal rows rows' := by
  let _ : Libm := Libm.ideal
  have ascending : Ascending ([idleDay 3600] ++ [tradedDay 90000]) := by
    simp [Ascending, idleDay, tradedDay]
  have inside : InDates 0 2 ([idleDay 3600] ++ [tradedDay 90000]) := by
    simp [InDates, idleDay, tradedDay]
  have valid : ∀ c ∈ [idleDay 3600] ++ [tradedDay 90000], ValidTimestamp c.timestamp := by
    simp [ValidTimestamp, idleDay, tradedDay]
  obtain ⟨composes, synthesizes⟩ := windows_compose_iff [idleDay 3600] [tradedDay 90000] windowPool
    0 2 ascending inside valid windowPool_queried (by decide) (by decide)
  obtain ⟨part1, part2, whole, first, second, both⟩ := synthesizes (by decide)
  obtain ⟨early, late, written, rows, rows', wrote1, wrote2, read, wrote, read', same, _⟩ :=
    composes false part1 part2 whole first second both
  refine ⟨rows, rows', ⟨early, late, written, part1, part2, whole, first, second, both, wrote1,
    wrote2, read, wrote, read'⟩, same (Or.inr (Or.inr ?_))⟩
  intro c member
  rw [List.mem_singleton.mp member]
  have idle : ¬(0 : Binary64) < 0 := by decide +kernel
  exact PoolSynthParams.gain_idle idle

omit [Libm] in
/-- Two days with one unit of growth each: the second window makes a wrap out of the first. -/
theorem second_window_pays_wrap : ∃ rows rows' result result',
    @Backfilled Libm.ideal [tradedDay 0] [tradedDay 86400] windowPool 0 2 rows rows' ∧
    @runDbBacktest Binary64 (@Libm.f64 Libm.ideal) false (windowInput (2 ^ 64)) rows = .ok result ∧
    @runDbBacktest Binary64 (@Libm.f64 Libm.ideal) false (windowInput (2 ^ 64)) rows' = .ok result' ∧
    result.totalFeesUsd = (2 ^ 128 : ℕ) ∧ result'.totalFeesUsd = (2 : ℕ) := by
  let _ : Libm := Libm.ideal
  have ascending : Ascending ([tradedDay 0] ++ [tradedDay 86400]) := by
    simp [Ascending, tradedDay]
  have inside : InDates 0 2 ([tradedDay 0] ++ [tradedDay 86400]) := by simp [InDates, tradedDay]
  have valid : ∀ c ∈ [tradedDay 0] ++ [tradedDay 86400], ValidTimestamp c.timestamp := by
    simp [ValidTimestamp, tradedDay]
  have liquid : 0 < windowPool.poolLiquidity := by decide
  have positive : 0 < windowPool.tickSpacing := by decide
  have typed : (windowInput (2 ^ 64)).Typed := ⟨by decide, by decide, by decide⟩
  obtain ⟨part1, synthesized1⟩ := synthesizeTicks_unchecked positive [tradedDay 0]
  obtain ⟨part2, synthesized2⟩ := synthesizeTicks_unchecked positive [tradedDay 86400]
  obtain ⟨whole, synthesized⟩ :=
    synthesizeTicks_unchecked positive ([tradedDay 0] ++ [tradedDay 86400])
  obtain ⟨baseline, candles, _, _, split⟩ := synthesizeTicks_ok synthesized2
  subst split
  obtain ⟨written, wrote, read⟩ :=
    whole_read ascending inside valid windowPool_queried (by decide) synthesized
  -- the slots 0 and 86400 are a day apart
  obtain ⟨early, late, wrote1, wrote2, stored⟩ := apart_read ascending valid synthesized2
    synthesized1 inside windowPool_queried (by decide) (by simp [Adjacent, tradedDay])
  have column := kept_column liquid (List.cons_ne_nil _ _) synthesized1 synthesized2
  have pool := windows_pool liquid (List.cons_ne_nil _ _) synthesized1 synthesized2
  obtain ⟨pool', column'⟩ := synthesized_readings liquid
    (List.append_ne_nil_of_left_ne_nil (List.cons_ne_nil _ _) _) synthesized
  simp only [List.map_cons, List.map_nil, tradedDay_gain] at column
  rw [List.map_append] at column'
  simp only [List.map_cons, List.map_nil, tradedDay_gain] at column'
  have rise : feeGrowthDelta 0 1 = 1 := by decide
  have spacing : 0 < (windowInput (2 ^ 64)).tickSpacing := by decide
  have filled : toRows (part1 ++ baseline :: candles) ≠ [] := by
    rw [toRows, List.map_append]
    exact List.append_ne_nil_of_right_ne_nil _ (List.cons_ne_nil _ _)
  obtain ⟨result, returned⟩ := runDbBacktest_unchecked spacing filled
  obtain ⟨result', returned'⟩ := runDbBacktest_unchecked spacing
    (synthesizeTicks_listed (List.cons_ne_nil _ _) synthesized)
  refine ⟨_, _, result, result', ⟨early, late, written, part1, _, whole, synthesized1,
    synthesized2, synthesized, wrote1, wrote2, stored, wrote, read⟩, returned, returned', ?_, ?_⟩
  · have total : (0 + (1 : ℕ) / Rounded.twoPow64 * (2 ^ 64 : ℕ) / 1 +
        (2 ^ 128 - 1 : ℕ) / Rounded.twoPow64 * (2 ^ 64 : ℕ) / 1 +
        (1 : ℕ) / Rounded.twoPow64 * (2 ^ 64 : ℕ) / 1 : Binary64) = (2 ^ 128 : ℕ) := by
      decide +kernel
    rw [runDbBacktest_streamFees returned, streamFees_column typed pool 0 column]
    have readings : saturate (2 ^ 128 - 1) 0 [1] ++ 0 :: saturate (2 ^ 128 - 1) 0 [1] =
        [1, 0, 1] := by decide
    have fall : feeGrowthDelta 1 0 = 2 ^ 128 - 1 := by decide
    rw [readings]
    simp only [DbBacktestInput.paidFor, rise, fall, windowInput_feesB]
    exact total
  · have total : (0 + (1 : ℕ) / Rounded.twoPow64 * (2 ^ 64 : ℕ) / 1 +
        (1 : ℕ) / Rounded.twoPow64 * (2 ^ 64 : ℕ) / 1 : Binary64) = (2 : ℕ) := by
      decide +kernel
    rw [runDbBacktest_streamFees returned', streamFees_column typed pool' 0 column']
    have readings : saturate (2 ^ 128 - 1) 0 ([1] ++ [1]) = [1, 2] := by decide
    have again : feeGrowthDelta 1 2 = 1 := by decide
    rw [readings]
    simp only [DbBacktestInput.paidFor, rise, again, windowInput_feesB]
    exact total

end TickLiq
