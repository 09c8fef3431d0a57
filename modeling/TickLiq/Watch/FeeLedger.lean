import Mathlib.Algebra.Order.Field.Rat
import Mathlib.Data.List.Infix
import Mathlib.Tactic.FieldSimp
import Mathlib.Tactic.Linarith
import TickLiq.Machine.Run
import TickLiq.Math.Fees

/-!
# The fees a watch session reports

The position account is read again on every tick, the growth baseline is fixed at
watch start. A fee update on chain moves accrued fees into `fee_owed` without
moving the baseline, so the growth up to the update is reported from both places,
the second time at the current liquidity. `FeeTally` keeps the books of a run:
what the position earned, and what is reported on top of it.
-/
namespace TickLiq.Watch

open Machine (run run_history wrappingSub wrappingSub_add wrappingSub_self add_wrappingSub)

/-- One token's side of pool and position; the price stays in range. -/
structure FeePosition where
  feeGrowthGlobal : ℕ
  feeGrowthCheckpoint : ℕ
  feeOwed : ℕ
  liquidity : ℕ
  global_lt : feeGrowthGlobal < 2 ^ 128
  checkpoint_lt : feeGrowthCheckpoint < 2 ^ 128
  owed_lt : feeOwed < 2 ^ 64
  liquidity_lt : liquidity < 2 ^ 128
deriving DecidableEq

inductive FeeEvent where
  | swap (growth : ℕ)
  | touch (liquidityDelta : ℤ)
deriving DecidableEq

/-- The growth that the next touch pays. -/
def FeePosition.pending (p : FeePosition) : ℕ :=
  wrappingSub (2 ^ 128) p.feeGrowthGlobal p.feeGrowthCheckpoint

/-- The on-chain rule; an event is not enabled if it would leave `u64` or `u128`. -/
def feeStep (p : FeePosition) : FeeEvent → Option FeePosition
  | .swap growth =>
    some { p with
      feeGrowthGlobal := (p.feeGrowthGlobal + growth) % 2 ^ 128
      global_lt := Nat.mod_lt _ (by decide) }
  | .touch liquidityDelta =>
    if fits : p.feeOwed + p.liquidity * p.pending / 2 ^ 64 < 2 ^ 64 ∧
        0 ≤ p.liquidity + liquidityDelta ∧ p.liquidity + liquidityDelta < 2 ^ 128 then
      some { p with
        feeGrowthCheckpoint := p.feeGrowthGlobal
        feeOwed := p.feeOwed + p.liquidity * p.pending / 2 ^ 64
        liquidity := (p.liquidity + liquidityDelta).toNat
        checkpoint_lt := p.global_lt
        owed_lt := fits.1
        liquidity_lt := by omega }
    else none

/-- `fee_owed + compute_accrued_fees(global, baseline, liquidity)`, in `u64`. -/
def reportedFees (baseline : ℕ) (p : FeePosition) : ℕ :=
  (p.feeOwed + computeAccruedFees p.feeGrowthGlobal baseline p.liquidity) % 2 ^ 64

/-- The books of a run since watch start. Amounts are scaled by `2^64`. -/
structure FeeTally where
  liquidity : ℕ
  /-- Growth from watch start to the last touch, and since then. -/
  counted : ℕ
  fresh : ℕ
  /-- Growth from before the watch that no touch has paid yet. -/
  unsettled : ℕ
  /-- Each swap's growth times the liquidity at that swap. -/
  earned : ℕ
  /-- What the first touch paid for growth from before the watch. -/
  settled : ℕ
  /-- What the touches rounded away. -/
  truncated : ℕ

namespace FeeTally

def step (y : FeeTally) : FeeEvent → FeeTally
  | .swap growth =>
    { y with fresh := y.fresh + growth, earned := y.earned + y.liquidity * growth }
  | .touch liquidityDelta =>
    { y with
      liquidity := (y.liquidity + liquidityDelta).toNat
      counted := y.counted + y.fresh
      fresh := 0
      unsettled := 0
      settled := y.settled + y.liquidity * y.unsettled
      truncated := y.truncated + y.liquidity * (y.unsettled + y.fresh) % 2 ^ 64 }

def growth (y : FeeTally) : ℕ := y.counted + y.fresh

/-- The growth that the next touch pays. -/
def pending (y : FeeTally) : ℕ := y.unsettled + y.fresh

/-- Reported on top of what was earned: the growth up to the last touch once more,
at the current liquidity, and the growth from before the watch. -/
def excess (y : FeeTally) : ℕ := y.settled + y.liquidity * y.counted

/-- Rounded away by the touches and by the report itself. -/
def remainder (y : FeeTally) : ℕ := y.truncated + y.liquidity * y.growth % 2 ^ 64

end FeeTally

def feeTally (start : FeePosition) (events : List FeeEvent) : FeeTally :=
  events.foldl FeeTally.step ⟨start.liquidity, 0, 0, start.pending, 0, 0, 0⟩

/-- At no point of the run more growth is to be paid than a `u128` holds. -/
def Payable (start : FeePosition) (events : List FeeEvent) : Prop :=
  ∀ es ∈ events.inits, (feeTally start es).pending < 2 ^ 128

/-- The growth to pay and the growth of the run fit a `u128`, and the amount to
report fits a `u64`. -/
def WithinRange (start : FeePosition) (events : List FeeEvent) (t : FeePosition) : Prop :=
  Payable start events ∧ (feeTally start events).growth < 2 ^ 128 ∧
    t.feeOwed + t.liquidity * (feeTally start events).growth / 2 ^ 64 < 2 ^ 64

/-- The report moved by what was earned, up to one unit per event. -/
def CountsOnce (start : FeePosition) (events : List FeeEvent) (t : FeePosition) : Prop :=
  |(reportedFees start.feeGrowthGlobal t : ℚ) -
    (reportedFees start.feeGrowthGlobal start + (feeTally start events).earned / 2 ^ 64)| ≤
      (events.length : ℚ)

/-- The books describe the position. -/
structure Follows (start p : FeePosition) (y : FeeTally) : Prop where
  liquidity : p.liquidity = y.liquidity
  global : p.feeGrowthGlobal = (start.feeGrowthGlobal + y.growth) % 2 ^ 128
  checkpoint : p.feeGrowthGlobal = (p.feeGrowthCheckpoint + y.pending) % 2 ^ 128
  owed : 2 ^ 64 * p.feeOwed + y.truncated + y.liquidity * y.fresh =
    2 ^ 64 * start.feeOwed + y.settled + y.earned

theorem feeTally_concat (start : FeePosition) (events : List FeeEvent) (e : FeeEvent) :
    feeTally start (events ++ [e]) = (feeTally start events).step e := by
  simp only [feeTally, List.foldl_append, List.foldl_cons, List.foldl_nil]

theorem Payable.start {start : FeePosition} {es fs : List FeeEvent}
    (payable : Payable start (es ++ fs)) : Payable start es := by
  intro gs prefixed
  apply payable
  exact (List.mem_inits _ _).mpr (((List.mem_inits _ _).mp prefixed).trans (es.prefix_append fs))

theorem Payable.last {start : FeePosition} {events : List FeeEvent}
    (payable : Payable start events) : (feeTally start events).pending < 2 ^ 128 :=
  payable events ((List.mem_inits _ _).mpr List.prefix_rfl)

theorem follows_start (start : FeePosition) : Follows start start (feeTally start []) := by
  have unwrapped := Nat.mod_eq_of_lt start.global_lt
  have paid := add_wrappingSub start.global_lt start.checkpoint_lt
  refine ⟨rfl, ?_, ?_, ?_⟩
  · simp [feeTally, FeeTally.growth, unwrapped, -Nat.reducePow]
  · simp [feeTally, FeeTally.pending, FeePosition.pending, paid, -Nat.reducePow]
  · simp [feeTally]

theorem follows_pending {start p : FeePosition} {y : FeeTally} (follows : Follows start p y)
    (small : y.pending < 2 ^ 128) : p.pending = y.pending := by
  rw [FeePosition.pending, follows.checkpoint, wrappingSub_add p.checkpoint_lt small]

theorem follows_step {start p q : FeePosition} {y : FeeTally} {e : FeeEvent}
    (follows : Follows start p y) (small : y.pending < 2 ^ 128)
    (moved : feeStep p e = some q) : Follows start q (y.step e) := by
  have owed := follows.owed
  cases e with
  | swap growth =>
    cases moved
    refine ⟨follows.liquidity, ?_, ?_, ?_⟩
    · simp only [follows.global, FeeTally.growth, FeeTally.step, Nat.mod_add_mod, Nat.add_assoc]
    · show (p.feeGrowthGlobal + growth) % 2 ^ 128 =
        (p.feeGrowthCheckpoint + (y.unsettled + (y.fresh + growth))) % 2 ^ 128
      rw [follows.checkpoint, Nat.mod_add_mod]
      simp only [FeeTally.pending, Nat.add_assoc]
    · simp only [FeeTally.step, Nat.mul_add]
      omega
  | touch liquidityDelta =>
    have paid := follows_pending follows small
    simp only [feeStep] at moved
    split at moved
    next fits =>
      cases moved
      refine ⟨?_, follows.global, ?_, ?_⟩
      · simp only [FeeTally.step, follows.liquidity]
      · simp only [FeeTally.step, FeeTally.pending, Nat.add_zero]
        exact (Nat.mod_eq_of_lt p.global_lt).symm
      · -- the touch pays the pending growth, rounded down
        simp only [FeeTally.step, paid, follows.liquidity, FeeTally.pending]
        have split := Nat.div_add_mod (y.liquidity * (y.unsettled + y.fresh)) (2 ^ 64)
        simp only [Nat.mul_add] at split ⊢
        omega
    next => cases moved

theorem follows_run {start t : FeePosition} {events : List FeeEvent}
    (played : run feeStep start events = some t) (payable : Payable start events) :
    Follows start t (feeTally start events) := by
  refine run_history feeStep start (fun events t =>
    Payable start events → Follows start t (feeTally start events)) ?_ ?_ events t played payable
  · exact fun _ => follows_start start
  · intro es u e v _ soFar moved payable
    rw [feeTally_concat]
    exact follows_step (soFar payable.start) payable.start.last moved

/-! ### The report -/

theorem reportedFees_eq {start t : FeePosition} {events : List FeeEvent}
    (played : run feeStep start events = some t) (range : WithinRange start events t) :
    reportedFees start.feeGrowthGlobal t =
      t.feeOwed + t.liquidity * (feeTally start events).growth / 2 ^ 64 := by
  obtain ⟨payable, small, fits⟩ := range
  have follows := follows_run played payable
  have since : wrappingSub (2 ^ 128) t.feeGrowthGlobal start.feeGrowthGlobal =
      (feeTally start events).growth := by
    rw [follows.global, wrappingSub_add start.global_lt small]
  rw [reportedFees, computeAccruedFees_eq, since, Nat.mul_comm _ t.liquidity]
  have accrued : t.liquidity * (feeTally start events).growth / 2 ^ 64 < 2 ^ 64 := by omega
  rw [Nat.mod_eq_of_lt accrued, Nat.mod_eq_of_lt fits]

theorem reportedFees_start (start : FeePosition) :
    reportedFees start.feeGrowthGlobal start = start.feeOwed := by
  rw [reportedFees, computeAccruedFees_eq, wrappingSub_self, Nat.zero_mul, Nat.zero_div,
    Nat.zero_mod, Nat.add_zero, Nat.mod_eq_of_lt start.owed_lt]

/-- The report is what was there, plus what was earned, plus the excess, less the remainders. -/
theorem reportedFees_balance {start t : FeePosition} {events : List FeeEvent}
    (played : run feeStep start events = some t) (range : WithinRange start events t) :
    2 ^ 64 * reportedFees start.feeGrowthGlobal t + (feeTally start events).remainder =
      2 ^ 64 * reportedFees start.feeGrowthGlobal start + (feeTally start events).earned +
        (feeTally start events).excess := by
  have follows := follows_run played range.1
  have owed := follows.owed
  rw [reportedFees_eq played range, reportedFees_start, follows.liquidity]
  generalize feeTally start events = y at owed ⊢
  have split := Nat.div_add_mod (y.liquidity * y.growth) (2 ^ 64)
  simp only [FeeTally.remainder, FeeTally.excess, FeeTally.growth, Nat.mul_add] at split owed ⊢
  omega

/-- Each event rounds away less than one unit; the report only does once there is growth. -/
theorem truncated_le (start : FeePosition) (events : List FeeEvent) :
    (feeTally start events).truncated ≤ events.length * 2 ^ 64 ∧
      ((feeTally start events).growth ≠ 0 →
        (feeTally start events).truncated + 2 ^ 64 ≤ events.length * 2 ^ 64) := by
  induction events using List.reverseRecOn with
  | nil => simp [feeTally, FeeTally.growth]
  | append_singleton es e ih =>
    rw [feeTally_concat, List.length_append, List.length_singleton, Nat.succ_mul]
    generalize feeTally start es = y at ih ⊢
    obtain ⟨bounded, strictly⟩ := ih
    cases e with
    -- a swap rounds nothing and makes room for the report
    | swap growth =>
      simp only [FeeTally.step]
      exact ⟨Nat.le_trans bounded (Nat.le_add_right _ _), fun _ => Nat.add_le_add_right bounded _⟩
    | touch =>
      have rounded := Nat.mod_lt (y.liquidity * (y.unsettled + y.fresh)) (show 0 < 2 ^ 64 by decide)
      simp only [FeeTally.step, FeeTally.growth, Nat.add_zero]
      refine ⟨Nat.add_le_add bounded rounded.le, fun grown => Nat.add_le_add_right ?_ _⟩
      have before := strictly grown
      omega

theorem remainder_le (start : FeePosition) (events : List FeeEvent) :
    (feeTally start events).remainder ≤ events.length * 2 ^ 64 := by
  obtain ⟨bounded, strictly⟩ := truncated_le start events
  generalize feeTally start events = y at bounded strictly ⊢
  have rounded := Nat.mod_lt (y.liquidity * y.growth) (show 0 < 2 ^ 64 by decide)
  simp only [FeeTally.remainder]
  -- without growth the report rounds nothing
  by_cases none : y.growth = 0
  · simpa [none] using bounded
  · have room := strictly none
    omega

theorem counts_once_iff_excess {start t : FeePosition} {events : List FeeEvent}
    (played : run feeStep start events = some t) (range : WithinRange start events t) :
    CountsOnce start events t ↔
      (feeTally start events).excess ≤
        events.length * 2 ^ 64 + (feeTally start events).remainder := by
  have balance := reportedFees_balance played range
  have rounded := remainder_le start events
  unfold CountsOnce
  generalize feeTally start events = y at balance rounded ⊢
  generalize reportedFees start.feeGrowthGlobal t = now at balance ⊢
  generalize reportedFees start.feeGrowthGlobal start = before at balance ⊢
  have scaled : (2 : ℚ) ^ 64 * now + y.remainder = 2 ^ 64 * before + y.earned + y.excess := by
    exact_mod_cast balance
  -- the report is off by the excess less the remainders, in units
  have off : (now : ℚ) - (before + y.earned / 2 ^ 64) = (y.excess - y.remainder) / 2 ^ 64 := by
    field_simp
    linarith
  -- the remainders alone stay within the rounding
  have below : (y.remainder : ℚ) ≤ events.length * 2 ^ 64 := by exact_mod_cast rounded
  have positive : (0 : ℚ) < 2 ^ 64 := by norm_num
  have nonneg : (0 : ℚ) ≤ y.excess := Nat.cast_nonneg _
  rw [off, abs_le]
  constructor
  · rintro ⟨-, above⟩
    rw [div_le_iff₀ positive] at above
    have cast : (y.excess : ℚ) ≤ events.length * 2 ^ 64 + y.remainder := by linarith
    exact_mod_cast cast
  · intro small
    have cast : (y.excess : ℚ) ≤ events.length * 2 ^ 64 + y.remainder := by exact_mod_cast small
    refine ⟨?_, ?_⟩
    · rw [le_div_iff₀ positive]
      linarith
    · rw [div_le_iff₀ positive]
      linarith

/-- Without a touch nothing is counted twice. -/
theorem excess_of_swaps (start : FeePosition) (events : List FeeEvent)
    (swaps : ∀ e ∈ events, ∃ growth, e = .swap growth) : (feeTally start events).excess = 0 := by
  suffices untouched : (feeTally start events).settled = 0 ∧ (feeTally start events).counted = 0 by
    simp only [FeeTally.excess, untouched, Nat.mul_zero]
  induction events using List.reverseRecOn with
  | nil => exact ⟨rfl, rfl⟩
  | append_singleton es e ih =>
    obtain ⟨growth, rfl⟩ := swaps e (by simp)
    rw [feeTally_concat]
    apply ih
    intro e member
    exact swaps e (List.mem_append_left _ member)

/-- A fee update moves the report by the fees it pays. -/
theorem reportedFees_touch {start t u : FeePosition} {events : List FeeEvent}
    (played : run feeStep start events = some t) (moved : feeStep t (.touch 0) = some u)
    (range : WithinRange start (events ++ [.touch 0]) u) :
    reportedFees start.feeGrowthGlobal u =
      reportedFees start.feeGrowthGlobal t + t.liquidity * t.pending / 2 ^ 64 := by
  have after := (Machine.run_concat_some _ _ _ _ _).mpr ⟨t, played, moved⟩
  -- a touch moves growth between the books and adds none
  have same : (feeTally start (events ++ [.touch 0])).growth = (feeTally start events).growth := by
    rw [feeTally_concat]
    rfl
  have paid : u.feeOwed = t.feeOwed + t.liquidity * t.pending / 2 ^ 64 ∧
      u.liquidity = t.liquidity := by
    simp only [feeStep] at moved
    split at moved
    next =>
      cases moved
      exact ⟨rfl, by simp⟩
    next => cases moved
  rw [reportedFees_eq after range]
  obtain ⟨payable, small, fits⟩ := range
  rw [same] at small fits ⊢
  rw [paid.1, paid.2] at fits ⊢
  rw [reportedFees_eq played ⟨payable.start, small, by omega⟩]
  omega

/-- The report counts each fee once exactly as long as the excess drowns in the
rounding; it does before the first touch. A fee update goes unnoticed exactly if
it pays less than two units. -/
theorem fees_counted_once_iff (start t : FeePosition) (events : List FeeEvent)
    (played : run feeStep start events = some t) (range : WithinRange start events t) :
    (CountsOnce start events t ↔
      (feeTally start events).excess ≤
        events.length * 2 ^ 64 + (feeTally start events).remainder) ∧
    ((∀ e ∈ events, ∃ growth, e = .swap growth) → CountsOnce start events t) ∧
    (∀ u, feeStep t (.touch 0) = some u → WithinRange start (events ++ [.touch 0]) u →
      (reportedFees start.feeGrowthGlobal t ≤ reportedFees start.feeGrowthGlobal u ∧
        reportedFees start.feeGrowthGlobal u ≤ reportedFees start.feeGrowthGlobal t + 1 ↔
          t.liquidity * t.pending < 2 * 2 ^ 64)) := by
  have exact := counts_once_iff_excess played range
  refine ⟨exact, fun swaps => ?_, fun u moved later => ?_⟩
  · rw [exact, excess_of_swaps start events swaps]
    exact Nat.zero_le _
  · rw [reportedFees_touch played moved later, ← Nat.div_lt_iff_lt_mul (by decide)]
    omega

def freshPosition : FeePosition :=
  ⟨0, 0, 0, 2 ^ 64, by decide, by decide, by decide, by decide⟩

/-- A unit earned, as much liquidity again added, and five more units to each half. -/
def swapsAroundTouch : List FeeEvent := [.swap 1, .touch (2 ^ 64), .swap 5]

theorem fees_counted_once_touched :
    ∃ t, run feeStep freshPosition swapsAroundTouch = some t ∧
      WithinRange freshPosition swapsAroundTouch t ∧
      (feeTally freshPosition swapsAroundTouch).earned = 11 * 2 ^ 64 ∧ reportedFees 0 t = 13 ∧
      CountsOnce freshPosition swapsAroundTouch t := by
  have played : run feeStep freshPosition swapsAroundTouch =
      some ⟨6, 1, 1, 2 ^ 65, by decide, by decide, by decide, by decide⟩ := by decide +kernel
  have range : WithinRange freshPosition swapsAroundTouch
      ⟨6, 1, 1, 2 ^ 65, by decide, by decide, by decide, by decide⟩ := by
    simp only [WithinRange, Payable]
    decide
  refine ⟨_, played, range, by decide, by decide, ?_⟩
  exact (fees_counted_once_iff freshPosition _ swapsAroundTouch played range).1.mpr (by decide)

/-- Ten units are earned; a fee update later twenty are reported. -/
theorem fees_counted_twice :
    ∃ t, run feeStep freshPosition [.swap 10, .touch 0] = some t ∧
      WithinRange freshPosition [.swap 10, .touch 0] t ∧
      (feeTally freshPosition [.swap 10, .touch 0]).earned = 10 * 2 ^ 64 ∧
      reportedFees 0 freshPosition = 0 ∧ reportedFees 0 t = 20 ∧
      ¬ CountsOnce freshPosition [.swap 10, .touch 0] t := by
  have played : run feeStep freshPosition [.swap 10, .touch 0] =
      some ⟨10, 10, 10, 2 ^ 64, by decide, by decide, by decide, by decide⟩ := by decide +kernel
  have range : WithinRange freshPosition [.swap 10, .touch 0]
      ⟨10, 10, 10, 2 ^ 64, by decide, by decide, by decide, by decide⟩ := by
    simp only [WithinRange, Payable]
    decide
  refine ⟨_, played, range, by decide, by decide, by decide, ?_⟩
  rw [counts_once_iff_excess played range]
  decide

end TickLiq.Watch
