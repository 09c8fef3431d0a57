import TickLiq.Backtest.SwitchedOff

/-!
# When the GBM engine rebalances

A day counts as in range by its price, the signal goes by ticks. The two part on the ticks
of the bounds: there a day in range is rebalanced as well once the P&L gate is open, and a
day out of range is not while it is shut. Away from them they part only where a rounded
logarithm turns the order of two prices around, which an exact one does not.
-/
namespace TickLiq

open Machine (InRange bind_ok_iff)

variable {K : Type} [F64 K]

namespace Gbm

/-- The tick of a day in range is not beyond the ticks of the bounds, and that of a day out of
range is beyond one or on it. -/
def Ordered (inside : Bool) (tick lower upper : ℤ) : Prop :=
  (inside = true → ¬ (tick < lower ∨ upper < tick)) ∧
    (inside = false → (tick < lower ∨ upper < tick) ∨
      tickDistance tick lower ≤ 0 ∨ tickDistance upper tick ≤ 0)

/-- On the tick of a bound the P&L is negative just when the day is in range. -/
def TieBroken (inside : Bool) (tick lower upper : ℤ) (netPnlUsd : K) : Prop :=
  ¬ (tick < lower ∨ upper < tick) →
    (tickDistance tick lower ≤ 0 ∨ tickDistance upper tick ≤ 0) → (inside = true ↔ netPnlUsd < 0)

/-- Ticks decide as prices do exactly if they are ordered alike and ties are broken. -/
theorem fires_iff_outside (inside : Bool) (tick lower upper : ℤ) (netPnlUsd : K) :
    (Fires tick lower upper netPnlUsd ⟨true, 0, 0⟩ ↔ inside = false) ↔
      Ordered inside tick lower upper ∧ TieBroken inside tick lower upper netPnlUsd := by
  unfold Fires Ordered TieBroken
  simp only [true_and]
  -- a statement about four conditions, whatever they say
  generalize (tick < lower ∨ upper < tick) = beyond
  generalize (tickDistance tick lower ≤ 0 ∨ tickDistance upper tick ≤ 0) = touches
  generalize (netPnlUsd < 0) = negative
  cases inside <;> by_cases beyond <;> by_cases touches <;> by_cases negative <;> simp [*]

variable {params : BacktestParams K} {checks : Bool}

/-- The ticks of the price and the range, where they have some, are ordered as the prices are and
no tie is broken the wrong way. -/
def Clear (checks : Bool) (params : BacktestParams K) (gbm : Gbm K) (price : K) : Prop :=
  ∀ tick lower upper, priceToTick checks price params.tickSpacing = .ok tick →
    priceToTick checks gbm.priceLower params.tickSpacing = .ok lower →
    priceToTick checks gbm.priceUpper params.tickSpacing = .ok upper →
    Ordered (gbm.inRange price) tick lower upper ∧
      TieBroken (gbm.inRange price) tick lower upper
        ((gbm.accrue params price).netPnl params price)

/-- Every day of the run is clear in the state before it. -/
def ClearRun (checks : Bool) (params : BacktestParams K) (path : ℕ → K) : Prop :=
  ∀ seen price later, drawn params path = seen ++ price :: later →
    ∀ gbm, loop params checks 1 (start params) seen = .ok gbm →
      gbm.Clear checks params (max price 1e-6)

/-- The days out of range are the days that rebalance. -/
structure RebalancesOutside (checks : Bool) (params : BacktestParams K) (path : ℕ → K)
    (result : BacktestResult K) : Prop where
  days : rebalances checks params path = result.days.map fun row => !row.inRange
  total : result.totalRebalances = result.days.countP fun row => !row.inRange

section Signal

variable (on : params.strategyRebalance = true)
include on

/-- A day rebalances exactly if the signal fires on the ticks of its price and range. -/
theorem step_rebalanced {gbm next : Gbm K} {day : ℕ} {price : K}
    (returned : gbm.step params checks day price = .ok next) : ∃ tick lower upper,
      priceToTick checks (max price 1e-6) params.tickSpacing = .ok tick ∧
      priceToTick checks gbm.priceLower params.tickSpacing = .ok lower ∧
      priceToTick checks gbm.priceUpper params.tickSpacing = .ok upper ∧
      (gbm.rebalanced next = true ↔ Fires tick lower upper
        ((gbm.accrue params (max price 1e-6)).netPnl params (max price 1e-6)) ⟨true, 0, 0⟩) := by
  have config : params.rebalanceCfg = ⟨true, 0, 0⟩ := by
    rw [BacktestParams.rebalanceCfg, on]
  -- the three ticks in the order in which the day computes them
  obtain ⟨rested, decided, made⟩ := step_ok returned
  simp only [rebalanceDay, if_pos on] at decided
  obtain ⟨signal, signalled, decided⟩ := (bind_ok_iff ..).mp decided
  obtain ⟨tick, current, signalled⟩ := (bind_ok_iff ..).mp signalled
  obtain ⟨lower, bottom, signalled⟩ := (bind_ok_iff ..).mp signalled
  obtain ⟨upper, top, signalled⟩ := (bind_ok_iff ..).mp signalled
  rw [config] at signalled
  refine ⟨tick, lower, upper, current, bottom, top, ?_⟩
  rw [made]
  cases signal with
  | hold reason =>
    cases decided
    rw [iff_false_intro (shouldRebalance_holds signalled), iff_false]
    exact fun mark => of_decide_eq_true mark rfl
  | rebalance reason =>
    cases decided
    rw [iff_true_intro (shouldRebalance_fires signalled), iff_true]
    exact decide_eq_true (Nat.succ_ne_self _)

theorem step_clear {gbm next : Gbm K} {day : ℕ} {price : K}
    (returned : gbm.step params checks day price = .ok next) :
    gbm.rebalanced next = (!gbm.inRange (max price 1e-6)) ↔
      gbm.Clear checks params (max price 1e-6) := by
  obtain ⟨tick, lower, upper, current, bottom, top, fires⟩ := step_rebalanced on returned
  have agree := fires_iff_outside (gbm.inRange (max price 1e-6)) tick lower upper
    ((gbm.accrue params (max price 1e-6)).netPnl params (max price 1e-6))
  simp only [Clear, current, bottom, top, Except.ok.injEq]
  rw [Bool.eq_iff_iff, Bool.not_eq_true', fires, agree]
  constructor
  · rintro clear _ _ _ rfl rfl rfl
    exact clear
  · intro clear
    exact clear tick lower upper rfl rfl rfl

/-- Marks and rows of the days agree as long as every day is clear in the state before it. -/
theorem loop_clear {prices : List K} {last : Gbm K}
    (through : loop params checks 1 (start params) prices = .ok last) :
    Machine.marks (fun day gbm drawn => step gbm params checks day drawn) rebalanced 1
        (start params) prices = last.dayResults.map (fun row => !row.inRange) ↔
      ∀ seen price later, prices = seen ++ price :: later →
        ∀ gbm, loop params checks 1 (start params) seen = .ok gbm →
          gbm.Clear checks params (max price 1e-6) := by
  induction prices using List.reverseRecOn generalizing last with
  | nil =>
    cases through
    refine iff_of_true rfl ?_
    intro seen price later split
    exact absurd split (by simp)
  | append_singleton prices price ih =>
    obtain ⟨mid, before, stepped⟩ := Machine.loop_concat.mp through
    -- what the last day adds to the marks
    have mark : Machine.marks (fun day gbm drawn => step gbm params checks day drawn) rebalanced
        (1 + prices.length) mid [price] = [mid.rebalanced last] := by
      simp only [Machine.marks, stepped]
    rw [Machine.marks_append before, mark, step_rows stepped, List.map_append,
      Machine.forall_split_concat, ← ih before]
    constructor
    · intro same
      -- two lists with one more element agree if their fronts and these elements do
      obtain ⟨front, back⟩ := List.append_inj' same rfl
      refine ⟨front, ?_⟩
      intro gbm through
      have state : gbm = mid := Except.ok.inj (through.symm.trans before)
      rw [state]
      exact (step_clear on stepped).mp (List.cons.inj back).1
    · intro both
      rw [both.1, List.map_singleton]
      have flag := (step_clear on stepped).mpr (both.2 mid before)
      rw [flag]
      rfl

end Signal

end Gbm

/-- The GBM engine rebalances exactly on the days out of range, if and only if no day has its
ticks out of order with its prices or breaks the tie on a bound's tick the other way. The ticks
and the P&L are those the engine computes, whatever its numbers round to. -/
theorem rebalances_outside_iff (params : BacktestParams K) (path : ℕ → K)
    (on : params.strategyRebalance = true) (spacing : 0 < params.tickSpacing) :
    (∀ checks result, Gbm.run checks params path = .ok result →
      (Gbm.RebalancesOutside checks params path result ↔ Gbm.ClearRun checks params path)) ∧
    ∃ result, Gbm.run false params path = .ok result := by
  constructor
  · intro checks result returned
    have count := (Gbm.run_marks returned).2
    obtain ⟨last, through, finished⟩ := Gbm.run_ok.mp returned
    have agree := Gbm.loop_clear on through
    constructor
    · intro outside
      have days := outside.days
      rw [finished] at days
      -- marked days are the rows out of range
      exact agree.mp days
    · intro clear
      have days : Gbm.rebalances checks params path =
          result.days.map fun row => !row.inRange := by
        rw [finished]
        exact agree.mpr clear
      refine ⟨days, ?_⟩
      rw [← count, days, List.count_eq_countP, List.countP_map]
      congr 1
      funext row
      simp
  · exact Gbm.run_unchecked spacing path

/-! ### Exact numbers -/

namespace Gbm

variable {params : BacktestParams ℝ} {checks : Bool}

/-- A range that recentring keeps away from zero, no wider than the first. -/
structure Ranged (params : BacktestParams ℝ) (gbm : Gbm ℝ) : Prop where
  bottom : ((2 ^ 1074 : ℕ) : ℝ)⁻¹ ≤ gbm.priceLower
  ordered : gbm.priceLower ≤ gbm.priceUpper
  width : gbm.priceUpper - gbm.priceLower ≤ params.priceUpper - params.priceLower
  top : gbm.priceUpper < (2 ^ 1025 : ℕ)

theorem Ranged.pos {gbm : Gbm ℝ} (ranged : Ranged params gbm) : 0 < gbm.priceLower :=
  lt_of_lt_of_le (by positivity) ranged.bottom

theorem start_ranged (lower : FloatSized params.priceLower) (upper : FloatSized params.priceUpper)
    (ordered : params.priceLower < params.priceUpper) : Ranged params (start params) :=
  ⟨lower.lower, ordered.le, le_rfl, upper.upper'⟩

theorem guarded_sized {price : ℝ} (sized : FloatSized price) : FloatSized (max price 1e-6) := by
  refine ⟨sized.lower.trans (le_max_left ..), max_lt sized.upper ?_⟩
  exact (floatSized_of_le le_rfl (by norm_num)).upper

theorem recenter_ranged (lower : FloatSized params.priceLower)
    (upper : FloatSized params.priceUpper) {gbm : Gbm ℝ} {price : ℝ} (ranged : Ranged params gbm)
    (sized : FloatSized price) (guard : 1e-6 ≤ price) :
    Ranged params (gbm.recenter params price) := by
  have half : 0 ≤ (gbm.priceUpper - gbm.priceLower) / (2 : ℕ) :=
    div_nonneg (sub_nonneg.mpr ranged.ordered) (Nat.cast_nonneg 2)
  -- the new range is as wide as the old one, or cut off at the guard
  have twice : (gbm.priceUpper - gbm.priceLower) / (2 : ℕ) +
      (gbm.priceUpper - gbm.priceLower) / (2 : ℕ) = gbm.priceUpper - gbm.priceLower := by
    push_cast
    ring
  have bound := ranged.width
  have left := le_max_left (price - (gbm.priceUpper - gbm.priceLower) / (2 : ℕ)) 1e-6
  refine ⟨subnormal_le.trans (le_max_right ..), ?_, ?_, ?_⟩
  · refine max_le ?_ ?_
    · show price - _ ≤ price + _
      linarith
    · show _ ≤ price + _
      linarith
  · show price + _ - max _ 1e-6 ≤ _
    linarith
  · have limit : ((2 ^ 1025 : ℕ) : ℝ) = (2 ^ 1024 : ℕ) + (2 ^ 1024 : ℕ) := by
      rw [← Nat.cast_add, ← two_mul, ← pow_succ']
    have pricesTop := sized.upper
    have rangeTop := upper.upper
    have rangeBottom := lower.pos
    show price + _ < _
    linarith

theorem step_ranged (lower : FloatSized params.priceLower) (upper : FloatSized params.priceUpper)
    {gbm next : Gbm ℝ} {day : ℕ} {price : ℝ} (ranged : Ranged params gbm) (sized : FloatSized price)
    (returned : gbm.step params checks day price = .ok next) : Ranged params next := by
  obtain ⟨rested, decided, made⟩ := step_ok returned
  rw [made]
  rcases rebalanceDay_cases decided with held | moved
  · rw [held.1]
    exact ⟨ranged.bottom, ranged.ordered, ranged.width, ranged.top⟩
  · rw [moved.1]
    have recentred := recenter_ranged lower upper ranged (guarded_sized sized) (le_max_right ..)
    exact ⟨recentred.bottom, recentred.ordered, recentred.width, recentred.top⟩

section Exact

variable (spacing : 0 < params.tickSpacing) (fits : InRange 32 params.tickSpacing)
include spacing fits

theorem ticks_aligned {gbm : Gbm ℝ} {price : ℝ} (ranged : Ranged params gbm)
    (sized : FloatSized price) (checks : Bool) :
    priceToTick checks price params.tickSpacing = .ok (alignedTick price params.tickSpacing) ∧
      priceToTick checks gbm.priceLower params.tickSpacing =
        .ok (alignedTick gbm.priceLower params.tickSpacing) ∧
      priceToTick checks gbm.priceUpper params.tickSpacing =
        .ok (alignedTick gbm.priceUpper params.tickSpacing) :=
  ⟨priceToTick_aligned spacing fits sized.lower sized.upper' checks,
    priceToTick_aligned spacing fits ranged.bottom (ranged.ordered.trans_lt ranged.top) checks,
    priceToTick_aligned spacing fits (ranged.bottom.trans ranged.ordered) ranged.top checks⟩

/-- With exact logarithms nothing but the ties is left of the condition. -/
theorem exact_clear_iff {gbm : Gbm ℝ} {price : ℝ} (ranged : Ranged params gbm)
    (sized : FloatSized price) : gbm.Clear checks params price ↔
      (alignedTick price params.tickSpacing = alignedTick gbm.priceLower params.tickSpacing ∨
          alignedTick price params.tickSpacing = alignedTick gbm.priceUpper params.tickSpacing) →
        (gbm.inRange price = true ↔ (gbm.accrue params price).netPnl params price < 0) := by
  let tick := fun p => alignedTick p params.tickSpacing
  obtain ⟨current, lower, upper⟩ := ticks_aligned spacing fits ranged sized checks
  have bounds : tick gbm.priceLower ≤ tick gbm.priceUpper :=
    alignedTick_mono spacing ranged.pos ranged.ordered
  have toLower : tickDistance (tick price) (tick gbm.priceLower) =
      tick price - tick gbm.priceLower :=
    tickDistance_eq (alignedTick_sub_inRange spacing fits sized.lower sized.upper' ranged.bottom
      (ranged.ordered.trans_lt ranged.top))
  have toUpper : tickDistance (tick gbm.priceUpper) (tick price) =
      tick gbm.priceUpper - tick price :=
    tickDistance_eq (alignedTick_sub_inRange spacing fits (ranged.bottom.trans ranged.ordered)
      ranged.top sized.lower sized.upper')
  -- a price below the range has a tick at or below its own, and so on
  have below : price < gbm.priceLower → tick price ≤ tick gbm.priceLower :=
    fun below => alignedTick_mono spacing sized.pos below.le
  have above : gbm.priceLower ≤ price → tick gbm.priceLower ≤ tick price :=
    alignedTick_mono spacing ranged.pos
  have within : price ≤ gbm.priceUpper → tick price ≤ tick gbm.priceUpper :=
    alignedTick_mono spacing sized.pos
  have beyond : gbm.priceUpper < price → tick gbm.priceUpper ≤ tick price :=
    fun beyond => alignedTick_mono spacing (ranged.pos.trans_le ranged.ordered) beyond.le
  have inside : gbm.inRange price = true ↔ gbm.priceLower ≤ price ∧ price ≤ gbm.priceUpper :=
    decide_eq_true_iff
  have clear : gbm.Clear checks params price ↔
      Ordered (gbm.inRange price) (tick price) (tick gbm.priceLower) (tick gbm.priceUpper) ∧
        TieBroken (gbm.inRange price) (tick price) (tick gbm.priceLower) (tick gbm.priceUpper)
          ((gbm.accrue params price).netPnl params price) := by
    simp only [Clear, current, lower, upper, Except.ok.injEq]
    constructor
    · intro clear
      exact clear _ _ _ rfl rfl rfl
    · rintro clear _ _ _ rfl rfl rfl
      exact clear
  change _ ↔ (tick price = tick gbm.priceLower ∨ tick price = tick gbm.priceUpper) → _
  rw [clear, Ordered, TieBroken, toLower, toUpper]
  cases range : gbm.inRange price with
  | true =>
    obtain ⟨bottom, top⟩ := inside.mp range
    have bottomTick := above bottom
    have topTick := within top
    simp only [true_iff, forall_const, Bool.true_eq_false, false_implies, and_true]
    constructor
    · intro holds tie
      exact holds.2 (by omega) (by omega)
    · intro holds
      exact ⟨by omega, fun _ touches => holds (by omega)⟩
  | false =>
    have outside : ¬ (gbm.priceLower ≤ price ∧ price ≤ gbm.priceUpper) :=
      fun both => absurd (inside.mpr both) (by rw [range]; decide)
    have past : tick price ≤ tick gbm.priceLower ∨ tick gbm.priceUpper ≤ tick price := by
      rcases lt_or_ge price gbm.priceLower with beneath | least
      · exact Or.inl (below beneath)
      · exact Or.inr (beyond (not_le.mp fun within => outside ⟨least, within⟩))
    simp only [Bool.false_eq_true, false_implies, true_and, forall_const, false_iff]
    constructor
    · intro holds tie
      exact holds.2 (by omega) (by omega)
    · intro holds
      exact ⟨by omega, fun _ touches => holds (by omega)⟩

/-- Nor of the condition on a run, whose prices stay apart from zero. -/
theorem exact_clearRun_iff (lower : FloatSized params.priceLower)
    (upper : FloatSized params.priceUpper) (ordered : params.priceLower < params.priceUpper)
    {path : ℕ → ℝ} (sized : ∀ price ∈ drawn params path, FloatSized price) :
    ClearRun checks params path ↔ ∀ seen price later,
      drawn params path = seen ++ price :: later →
        ∀ gbm, loop params checks 1 (start params) seen = .ok gbm →
          (alignedTick (max price 1e-6) params.tickSpacing =
                alignedTick gbm.priceLower params.tickSpacing ∨
              alignedTick (max price 1e-6) params.tickSpacing =
                alignedTick gbm.priceUpper params.tickSpacing) →
            (gbm.inRange (max price 1e-6) = true ↔
              (gbm.accrue params (max price 1e-6)).netPnl params (max price 1e-6) < 0) := by
  refine forall_congr' fun seen => forall_congr' fun price => forall_congr' fun later =>
    forall_congr' fun split => forall_congr' fun gbm => forall_congr' fun through => ?_
  have before : ∀ p ∈ seen, FloatSized p := fun p member => sized p (by simp [split, member])
  have today : FloatSized (max price 1e-6) := guarded_sized (sized price (by simp [split]))
  -- the range stays sound through the days before
  have ranged : Ranged params gbm := Machine.loop_invariant (start_ranged lower upper ordered)
    (fun _ _ p member _ sound stepped => step_ranged lower upper sound (before p member) stepped)
    through
  exact exact_clear_iff spacing fits ranged today

end Exact

end Gbm

/-- One day of a position around price one. -/
noncomputable def oneDayParams : BacktestParams ℝ :=
  ⟨1, 0.5, 1.5, 1, 1, 1, 0, (10000 : ℕ), 1, 1, true⟩

theorem rebalances_outside_sample :
    ∃ result, Gbm.run false oneDayParams (fun _ => 1) = .ok result ∧
      Gbm.RebalancesOutside false oneDayParams (fun _ => 1) result := by
  have one : FloatSized 1 := floatSized_of_le (by norm_num) (by norm_num)
  have half : FloatSized oneDayParams.priceLower :=
    floatSized_of_le (by norm_num [oneDayParams]) (by norm_num [oneDayParams])
  have more : FloatSized oneDayParams.priceUpper :=
    floatSized_of_le (by norm_num [oneDayParams]) (by norm_num [oneDayParams])
  have ordered : oneDayParams.priceLower < oneDayParams.priceUpper := by norm_num [oneDayParams]
  have drawn : Gbm.drawn oneDayParams (fun _ => 1) = [1] := rfl
  obtain ⟨runs, result, returned⟩ := rebalances_outside_iff oneDayParams (fun _ => 1) rfl (by decide)
  have sized : ∀ price ∈ Gbm.drawn oneDayParams (fun _ => 1), FloatSized price := by
    simpa [drawn] using one
  refine ⟨result, returned, (runs false result returned).mpr
    ((Gbm.exact_clearRun_iff (by decide) (by decide) half more ordered sized).mpr ?_)⟩
  intro seen price later split gbm through
  rw [drawn] at split
  have first : seen = [] ∧ price = 1 := by
    cases seen with
    | nil => exact ⟨rfl, (List.cons.inj split).1.symm⟩
    | cons _ seen => exact absurd (List.cons.inj split).2 (by simp)
  rw [first.1] at through
  cases through
  rw [first.2, max_eq_left (by norm_num)]
  -- tick zero is on neither bound
  have below := rawTick_neg half.pos (by norm_num [oneDayParams])
  have above := rawTick_pos (show 1.0001 ≤ oneDayParams.priceUpper by norm_num [oneDayParams])
  simp only [alignedTick, rawTick_one]
  simp only [Gbm.start, oneDayParams, Int.ediv_one, Int.mul_one] at below above ⊢
  omega

/-- A range that starts at the entry price, and a day that earns a dollar. -/
noncomputable def atBoundParams : BacktestParams ℝ :=
  ⟨1, 1, (2 : ℕ), 1, 1, 1, 0, (10000 : ℕ), 1, 1, true⟩

theorem rebalances_in_range : ∃ result, Gbm.run false atBoundParams (fun _ => 1) = .ok result ∧
    (∀ row ∈ result.days, row.inRange = true) ∧ result.totalRebalances ≠ 0 := by
  obtain ⟨result, returned⟩ := Gbm.run_unchecked (show 0 < atBoundParams.tickSpacing by decide)
    fun _ => 1
  obtain ⟨last, through, finished⟩ := Gbm.run_ok.mp returned
  have day : Gbm.loop atBoundParams false 1 (Gbm.start atBoundParams) [1] = .ok last := through
  obtain ⟨next, stepped, done⟩ := Machine.loop_cons.mp day
  cases done
  have one : FloatSized 1 := floatSized_of_le (by norm_num) (by norm_num)
  have two : FloatSized 2 := floatSized_of_le (by norm_num) (by norm_num)
  have ranged : Gbm.Ranged atBoundParams (Gbm.start atBoundParams) :=
    Gbm.start_ranged one two (by norm_num [atBoundParams])
  have guarded : max (1 : ℝ) 1e-6 = 1 := by norm_num
  have inside : (Gbm.start atBoundParams).inRange 1 = true := by
    apply decide_eq_true
    norm_num [Gbm.start, atBoundParams]
  refine ⟨result, returned, ?_, ?_⟩ <;> rw [finished]
  · have rows := Gbm.step_rows stepped
    rw [guarded] at rows
    intro row member
    rw [Gbm.finish, rows] at member
    rw [List.mem_singleton.mp member]
    exact inside
  · -- the price is on the lower bound's tick, and the P&L is the fee of the day
    obtain ⟨tick, lower, upper, current, bottom, _, fires⟩ := Gbm.step_rebalanced rfl stepped
    have aligned := Gbm.ticks_aligned (by decide) (by decide) ranged one false
    have paid : 0 ≤ ((Gbm.start atBoundParams).accrue atBoundParams 1).netPnl atBoundParams 1 := by
      simp only [Gbm.netPnl, Gbm.ilToDate, Gbm.unrealizedIlUsd, Gbm.accrue, Gbm.start,
        atBoundParams, F64.computeIl_real, computeIl_self]
      norm_num [BacktestParams.feeFraction]
      split
      · exact zero_le_one
      · exact le_rfl
    rw [guarded] at current fires
    rw [← Except.ok.inj (aligned.1.symm.trans current),
      ← Except.ok.inj (aligned.2.1.symm.trans bottom)] at fires
    have same : tickDistance (alignedTick 1 1) (alignedTick 1 1) = 0 := by
      rw [tickDistance, sub_self]
      rfl
    exact of_decide_eq_true (fires.mpr (Or.inr ⟨not_lt.mpr paid, Or.inl same.le⟩))

end TickLiq
