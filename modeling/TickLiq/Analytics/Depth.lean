import Mathlib.Algebra.BigOperators.Group.List.Basic
import Mathlib.Data.List.Nodup
import Mathlib.Data.Real.Basic
import Mathlib.Tactic.Linarith
import Mathlib.Tactic.Ring
import Mathlib.Data.Int.Range
import TickLiq.Machine.Loop

/-!
# Liquidity around the current tick

`build_distribution` walks away from the current tick, one spacing a bucket, and
crosses the initialized ticks it meets. Buckets to the right add what they cross,
buckets to the left take it away.
-/
namespace TickLiq

open Machine (Panic InRange mulChecked addChecked subChecked checked_inRange ok_bind bind_ok_iff
  checked_true_iff loop loop_cons loop_concat PrefixesFit prefixesFit_nil prefixesFit_singleton
  loop_addChecked loop_addChecked_true)

structure LiquidityLevel (K : Type) where
  price : K
  liquidity : ℕ

/-- `n as i32` -/
def wrapI32 (n : ℕ) : ℤ := (n : ℤ).bmod (2 ^ 32)

/-- `liquidity as i128` -/
def wrapI128 (liquidity : ℕ) : ℤ := (liquidity : ℤ).bmod (2 ^ 128)

/-- `above < t && t <= upto` -/
def crosses (above upto : ℤ) (entry : ℤ × ℤ) : Bool :=
  decide (above < entry.1) && decide (entry.1 ≤ upto)

/-- `iter().filter(..).map(..).sum()`, in `i128`. -/
def crossedSum (checks : Bool) (tickLiquidities : List (ℤ × ℤ)) (above upto : ℤ) :
    Except Panic ℤ :=
  loop (fun _ sum delta => addChecked checks 128 sum delta) 0 0
    ((tickLiquidities.filter (crosses above upto)).map Prod.snd)

/-- `1.0001f64.powi(tick)` -/
class TickPrice (K : Type) where
  tickPrice : ℤ → K

noncomputable instance : TickPrice ℝ := ⟨fun tick => 1.0001 ^ tick⟩

variable {K : Type} [TickPrice K]

/-- The level of a bucket whose middle is at `mid`. -/
def levelAt (mid running : ℤ) : LiquidityLevel K where
  price := TickPrice.tickPrice mid
  liquidity := (max running 0).toNat

section Walks

variable (checks : Bool) (tickLiquidities : List (ℤ × ℤ)) (currentTick tickSpacing : ℤ)

def rightStep (state : ℤ × List (LiquidityLevel K)) (i : ℤ) :
    Except Panic (ℤ × List (LiquidityLevel K)) := do
  let offset ← mulChecked checks 32 i tickSpacing
  let bucketStart ← addChecked checks 32 currentTick offset
  -- the end of the bucket is computed for nothing, but may overflow
  let _ ← addChecked checks 32 bucketStart tickSpacing
  let runningRight ←
    if 0 < i then do
      let prevStart ← subChecked checks 32 bucketStart tickSpacing
      let delta ← crossedSum checks tickLiquidities prevStart bucketStart
      addChecked checks 128 state.1 delta
    else .ok state.1
  let mid ← addChecked checks 32 bucketStart (tickSpacing.tdiv 2)
  return (runningRight, state.2 ++ [levelAt mid runningRight])

def leftStep (state : ℤ × List (LiquidityLevel K)) (i : ℤ) :
    Except Panic (ℤ × List (LiquidityLevel K)) := do
  let offset ← mulChecked checks 32 i tickSpacing
  let bucketStart ← subChecked checks 32 currentTick offset
  let upper ← addChecked checks 32 bucketStart tickSpacing
  let delta ← crossedSum checks tickLiquidities bucketStart upper
  let runningLeft ← subChecked checks 128 state.1 delta
  let mid ← addChecked checks 32 bucketStart (tickSpacing.tdiv 2)
  return (runningLeft, state.2 ++ [levelAt mid runningLeft])

/-- `0..=n` -/
def upTo (n : ℤ) : List ℤ := (List.range (n + 1).toNat).map fun i : ℕ => (i : ℤ)

/-- `1..=n` -/
def oneUpTo (n : ℤ) : List ℤ := (List.range n.toNat).map fun i : ℕ => (i : ℤ) + 1

def buildDistribution (currentLiquidity : ℕ) (nBucketsEachSide : ℕ) :
    Except Panic (List (LiquidityLevel K)) := do
  let (_, result) ← loop (fun _ => rightStep checks tickLiquidities currentTick tickSpacing) 0
    (wrapI128 currentLiquidity, []) (upTo (wrapI32 nBucketsEachSide))
  let (_, left) ← loop (fun _ => leftStep checks tickLiquidities currentTick tickSpacing) 0
    (wrapI128 currentLiquidity, []) (oneUpTo (wrapI32 nBucketsEachSide))
  return left.reverse ++ result

end Walks

/-! ### Crossing at most one tick a bucket -/

/-- Distinct ticks on the grid of the spacing. -/
structure OnGrid (tickSpacing : ℕ) (ticks : List (ℤ × ℤ)) : Prop where
  distinct : (ticks.map Prod.fst).Nodup
  aligned : ∀ e ∈ ticks, (tickSpacing : ℤ) ∣ e.1

theorem mem_crossed {ticks : List (ℤ × ℤ)} {above upto : ℤ} {e : ℤ × ℤ} :
    e ∈ ticks.filter (crosses above upto) ↔ e ∈ ticks ∧ above < e.1 ∧ e.1 ≤ upto := by
  simp only [List.mem_filter, crosses, Bool.and_eq_true, decide_eq_true_iff]

/-- A list whose elements have different keys and one key only has at most one element. -/
theorem eq_nil_or_singleton {ticks : List (ℤ × ℤ)} (distinct : (ticks.map Prod.fst).Nodup)
    (same : ∀ e ∈ ticks, ∀ f ∈ ticks, e.1 = f.1) : ticks = [] ∨ ∃ e, ticks = [e] := by
  cases ticks with
  | nil => exact Or.inl rfl
  | cons e rest =>
    cases rest with
    | nil => exact Or.inr ⟨e, rfl⟩
    | cons f rest =>
      have keys := same e (by simp) f (by simp)
      rw [List.map_cons, List.map_cons, keys] at distinct
      exact absurd (List.mem_cons_self ..) (List.nodup_cons.mp distinct).1

theorem crossed_nil_or_singleton {tickSpacing : ℕ} {ticks : List (ℤ × ℤ)}
    (grid : OnGrid tickSpacing ticks) (above : ℤ) :
    ticks.filter (crosses above (above + tickSpacing)) = [] ∨
      ∃ e, ticks.filter (crosses above (above + tickSpacing)) = [e] := by
  apply eq_nil_or_singleton
  · exact grid.distinct.sublist (List.filter_sublist.map Prod.fst)
  · intro e left f right
    obtain ⟨inTicks, afterE, beforeE⟩ := mem_crossed.mp left
    obtain ⟨inTicksF, afterF, beforeF⟩ := mem_crossed.mp right
    -- two multiples of the spacing less than one spacing apart
    have gap : (tickSpacing : ℤ) ∣ e.1 - f.1 :=
      Int.dvd_sub (grid.aligned e inTicks) (grid.aligned f inTicksF)
    have none := Int.eq_zero_of_abs_lt_dvd gap (abs_lt.mpr ⟨by omega, by omega⟩)
    omega

theorem upTo_succ (n : ℕ) : upTo (n + 1 : ℕ) = upTo n ++ [((n + 1 : ℕ) : ℤ)] := by
  have more : (((n + 1 : ℕ) : ℤ) + 1).toNat = ((n : ℤ) + 1).toNat + 1 := by omega
  have last : ((n : ℤ) + 1).toNat = n + 1 := by omega
  rw [upTo, upTo, more, List.range_succ, List.map_append, last]
  rfl

theorem oneUpTo_succ (n : ℕ) : oneUpTo (n + 1 : ℕ) = oneUpTo n ++ [((n + 1 : ℕ) : ℤ)] := by
  have last : ((n + 1 : ℕ) : ℤ).toNat = n + 1 := by omega
  have before : (n : ℤ).toNat = n := by omega
  rw [oneUpTo, oneUpTo, last, before, List.range_succ, List.map_append]
  push_cast
  rfl

/-! ### The walks in closed form -/

/-- What the ticks in `(above, upto]` add when crossed upwards. -/
def liquidityBetween (ticks : List (ℤ × ℤ)) (above upto : ℤ) : ℤ :=
  ((ticks.filter (crosses above upto)).map Prod.snd).sum

theorem liquidityBetween_self (ticks : List (ℤ × ℤ)) (t : ℤ) : liquidityBetween ticks t t = 0 := by
  have none : ticks.filter (crosses t t) = [] := by
    apply List.eq_nil_iff_forall_not_mem.mpr
    intro e member
    have inside := (mem_crossed.mp member).2
    omega
  rw [liquidityBetween, none]
  rfl

theorem liquidityBetween_add (ticks : List (ℤ × ℤ)) {above middle upto : ℤ}
    (left : above ≤ middle) (right : middle ≤ upto) : liquidityBetween ticks above middle +
      liquidityBetween ticks middle upto = liquidityBetween ticks above upto := by
  simp only [liquidityBetween]
  induction ticks with
  | nil => rfl
  | cons e ticks ih =>
    simp only [List.filter_cons, crosses, Bool.and_eq_true, decide_eq_true_iff]
    -- a tick is on one side of the middle or on neither
    by_cases low : above < e.1 ∧ e.1 ≤ middle
    · rw [if_pos low, if_neg (by omega), if_pos (by omega), List.map_cons, List.map_cons,
        List.sum_cons, List.sum_cons, ← ih]
      ring
    · by_cases high : middle < e.1 ∧ e.1 ≤ upto
      · rw [if_neg low, if_pos high, if_pos (by omega), List.map_cons, List.map_cons,
          List.sum_cons, List.sum_cons, ← ih]
        ring
      · rw [if_neg low, if_neg high, if_neg (by omega)]
        exact ih

/-- One bucket further to the right. -/
theorem liquidityBetween_right (ticks : List (ℤ × ℤ)) (currentTick : ℤ) (tickSpacing m : ℕ) :
    liquidityBetween ticks currentTick (currentTick + m * tickSpacing) +
      liquidityBetween ticks (currentTick + m * tickSpacing)
        (currentTick + (m + 1 : ℕ) * tickSpacing) =
      liquidityBetween ticks currentTick (currentTick + (m + 1 : ℕ) * tickSpacing) := by
  have spacing : (0 : ℤ) ≤ tickSpacing := by positivity
  have reach : (0 : ℤ) ≤ m * tickSpacing := by positivity
  apply liquidityBetween_add
  · omega
  · push_cast
    linarith

/-- One bucket further to the left. -/
theorem liquidityBetween_left (ticks : List (ℤ × ℤ)) (currentTick : ℤ) (tickSpacing m : ℕ) :
    liquidityBetween ticks (currentTick - (m + 1 : ℕ) * tickSpacing)
        (currentTick - m * tickSpacing) +
      liquidityBetween ticks (currentTick - m * tickSpacing) currentTick =
      liquidityBetween ticks (currentTick - (m + 1 : ℕ) * tickSpacing) currentTick := by
  have spacing : (0 : ℤ) ≤ tickSpacing := by positivity
  have reach : (0 : ℤ) ≤ m * tickSpacing := by positivity
  apply liquidityBetween_add
  · push_cast
    linarith
  · omega

/-- Only the ticks between the bounds count, in any order. -/
theorem liquidityBetween_eq {tickSpacing : ℕ} {ticks other : List (ℤ × ℤ)}
    (grid : OnGrid tickSpacing ticks) (otherGrid : OnGrid tickSpacing other) {above upto : ℤ}
    (agree : ∀ e : ℤ × ℤ, above < e.1 → e.1 ≤ upto → (e ∈ ticks ↔ e ∈ other)) :
    liquidityBetween ticks above upto = liquidityBetween other above upto := by
  have same : (ticks.filter (crosses above upto)).Perm (other.filter (crosses above upto)) := by
    apply (List.perm_ext_iff_of_nodup ((List.Nodup.of_map _ grid.distinct).filter _)
      ((List.Nodup.of_map _ otherGrid.distinct).filter _)).mpr
    intro e
    rw [mem_crossed, mem_crossed]
    constructor
    · intro inside
      exact ⟨(agree e inside.2.1 inside.2.2).mp inside.1, inside.2⟩
    · intro inside
      exact ⟨(agree e inside.2.1 inside.2.2).mpr inside.1, inside.2⟩
  exact (same.map Prod.snd).sum_eq

/-- The sums over the ticks that each bucket crosses stay in `i128`. -/
def CrossedFit (ticks : List (ℤ × ℤ)) (currentTick : ℤ) (tickSpacing n : ℕ) : Prop :=
  ∀ j : ℤ, -n ≤ j → j < n → PrefixesFit 128 0 ((ticks.filter
    (crosses (currentTick + j * tickSpacing) (currentTick + (j + 1) * tickSpacing))).map Prod.snd)

instance (ticks : List (ℤ × ℤ)) (currentTick : ℤ) (tickSpacing n : ℕ) :
    Decidable (CrossedFit ticks currentTick tickSpacing n) := Int.decidableLELT _ _ _

theorem crossedSum_ok (checks : Bool) {ticks : List (ℤ × ℤ)} {currentTick : ℤ}
    {tickSpacing n : ℕ} (crossed : CrossedFit ticks currentTick tickSpacing n) {j : ℤ}
    (left : -n ≤ j) (right : j < n) :
    crossedSum checks ticks (currentTick + j * tickSpacing)
        (currentTick + (j + 1) * tickSpacing) =
      .ok (liquidityBetween ticks (currentTick + j * tickSpacing)
        (currentTick + (j + 1) * tickSpacing)) := by
  rw [crossedSum, loop_addChecked checks (crossed j left right), zero_add, liquidityBetween]

/-- On the grid no bucket has more than one tick to sum. -/
theorem OnGrid.crossedFit {tickSpacing : ℕ} {ticks : List (ℤ × ℤ)}
    (grid : OnGrid tickSpacing ticks) (fits : ∀ e ∈ ticks, InRange 128 e.2) (currentTick : ℤ)
    (n : ℕ) : CrossedFit ticks currentTick tickSpacing n := by
  intro j _ _
  have next : currentTick + (j + 1) * tickSpacing =
      currentTick + j * tickSpacing + tickSpacing := by ring
  rw [next]
  rcases crossed_nil_or_singleton grid (currentTick + j * tickSpacing) with empty | ⟨e, one⟩
  · rw [empty]
    exact prefixesFit_nil (by decide)
  · have member : e ∈ ticks := by
      apply (mem_crossed.mp _).1
      · exact currentTick + j * tickSpacing
      · exact currentTick + j * tickSpacing + tickSpacing
      · rw [one]
        exact List.mem_singleton_self e
    rw [one, List.map_singleton]
    apply prefixesFit_singleton (by decide)
    rw [zero_add]
    exact fits e member

/-- The ticks that the walks compute stay in `i32`. -/
structure TicksFit (currentTick : ℤ) (tickSpacing n : ℕ) : Prop where
  buckets : n < 2 ^ 31
  lowest : -2 ^ 31 ≤ currentTick - n * tickSpacing
  highest : currentTick + n * tickSpacing + tickSpacing < 2 ^ 31

def rightLevel (ticks : List (ℤ × ℤ)) (currentTick : ℤ) (tickSpacing : ℕ)
    (currentLiquidity i : ℤ) : LiquidityLevel K :=
  levelAt (currentTick + i * tickSpacing + (tickSpacing : ℤ).tdiv 2)
    (currentLiquidity + liquidityBetween ticks currentTick (currentTick + i * tickSpacing))

def leftLevel (ticks : List (ℤ × ℤ)) (currentTick : ℤ) (tickSpacing : ℕ)
    (currentLiquidity i : ℤ) : LiquidityLevel K :=
  levelAt (currentTick - i * tickSpacing + (tickSpacing : ℤ).tdiv 2)
    (currentLiquidity - liquidityBetween ticks (currentTick - i * tickSpacing) currentTick)

/-- The levels of the buckets, from the leftmost to the rightmost. -/
def distribution (ticks : List (ℤ × ℤ)) (currentTick : ℤ) (tickSpacing : ℕ)
    (currentLiquidity : ℤ) (n : ℕ) : List (LiquidityLevel K) :=
  ((List.range n).map fun i : ℕ =>
      leftLevel ticks currentTick tickSpacing currentLiquidity (i + 1)).reverse ++
    (List.range (n + 1)).map fun i : ℕ =>
      rightLevel ticks currentTick tickSpacing currentLiquidity i

/-- The running sums of both walks stay in `i128`. -/
def SumsFit (ticks : List (ℤ × ℤ)) (currentTick : ℤ) (tickSpacing : ℕ) (currentLiquidity : ℤ)
    (n : ℕ) : Prop :=
  ∀ i : ℕ, i ≤ n →
    InRange 128 (currentLiquidity +
      liquidityBetween ticks currentTick (currentTick + i * tickSpacing)) ∧
    InRange 128 (currentLiquidity -
      liquidityBetween ticks (currentTick - i * tickSpacing) currentTick)

instance (ticks : List (ℤ × ℤ)) (currentTick : ℤ) (tickSpacing : ℕ) (currentLiquidity : ℤ)
    (n : ℕ) : Decidable (SumsFit ticks currentTick tickSpacing currentLiquidity n) :=
  inferInstanceAs (Decidable (∀ i : ℕ, i ≤ n → _ ∧ _))

section Exact

variable (checks : Bool) {ticks : List (ℤ × ℤ)} {currentTick : ℤ} {tickSpacing n : ℕ}

theorem half_spacing (tickSpacing : ℕ) :
    0 ≤ (tickSpacing : ℤ).tdiv 2 ∧ (tickSpacing : ℤ).tdiv 2 ≤ tickSpacing := by
  rw [Int.tdiv_eq_ediv_of_nonneg (by omega)]
  omega

variable (inside : TicksFit currentTick tickSpacing n)
include inside

theorem bucket_bounds {i : ℕ} (near : i ≤ n) : 0 ≤ (i : ℤ) * tickSpacing ∧
    -2 ^ 31 ≤ currentTick - i * tickSpacing ∧
    currentTick + i * tickSpacing + tickSpacing < 2 ^ 31 := by
  obtain ⟨_, lowest, highest⟩ := inside
  have reach : (i : ℤ) * tickSpacing ≤ n * tickSpacing :=
    mul_le_mul_of_nonneg_right (by omega) (by omega)
  have start : 0 ≤ (i : ℤ) * tickSpacing := by positivity
  omega

theorem rightStep_zero (state : ℤ × List (LiquidityLevel K)) :
    rightStep checks ticks currentTick tickSpacing state 0 =
      .ok (state.1, state.2 ++ [levelAt (currentTick + (tickSpacing : ℤ).tdiv 2) state.1]) := by
  have half := half_spacing tickSpacing
  have bounds := bucket_bounds inside (Nat.zero_le n)
  rw [Nat.cast_zero, zero_mul] at bounds
  have start := checked_inRange checks (w := 32) (n := currentTick) ⟨by omega, by omega⟩
  have stop := checked_inRange checks (w := 32) (n := currentTick + tickSpacing)
    ⟨by omega, by omega⟩
  have middle := checked_inRange checks (w := 32) (n := currentTick + (tickSpacing : ℤ).tdiv 2)
    ⟨by omega, by omega⟩
  have offset := checked_inRange checks (w := 32) (n := 0) (by decide)
  simp only [rightStep, mulChecked, addChecked, zero_mul, offset, ok_bind, add_zero, start, stop,
    lt_irrefl, if_false, middle]
  rfl

variable (crossed : CrossedFit ticks currentTick tickSpacing n)
include crossed

/-- A bucket to the right adds the ticks between its start and that of the bucket before. -/
theorem rightStep_ok {state : ℤ × List (LiquidityLevel K)} {i : ℕ} (near : i + 1 ≤ n)
    (fits : InRange 128 (state.1 + liquidityBetween ticks (currentTick + i * tickSpacing)
      (currentTick + (i + 1 : ℕ) * tickSpacing))) :
    rightStep checks ticks currentTick tickSpacing state (i + 1 : ℕ) =
      .ok (state.1 + liquidityBetween ticks (currentTick + i * tickSpacing)
          (currentTick + (i + 1 : ℕ) * tickSpacing),
        state.2 ++ [levelAt (currentTick + (i + 1 : ℕ) * tickSpacing + (tickSpacing : ℤ).tdiv 2)
          (state.1 + liquidityBetween ticks (currentTick + i * tickSpacing)
            (currentTick + (i + 1 : ℕ) * tickSpacing))]) := by
  have before := bucket_bounds inside (Nat.le_of_succ_le near)
  have bounds := bucket_bounds inside near
  have half := half_spacing tickSpacing
  have next : currentTick + (i + 1 : ℕ) * tickSpacing - tickSpacing =
      currentTick + i * tickSpacing := by
    push_cast
    ring
  -- the steps in the order of the source, none of which leaves its word
  have sum := crossedSum_ok checks crossed (j := i) (by omega) (by omega)
  rw [← Nat.cast_add_one] at sum
  have offset := checked_inRange checks (w := 32) (n := (i + 1 : ℕ) * tickSpacing)
    ⟨by omega, by omega⟩
  have start := checked_inRange checks (w := 32) (n := currentTick + (i + 1 : ℕ) * tickSpacing)
    ⟨by omega, by omega⟩
  have stop := checked_inRange checks (w := 32)
    (n := currentTick + (i + 1 : ℕ) * tickSpacing + tickSpacing) ⟨by omega, by omega⟩
  have previous := checked_inRange checks (w := 32)
    (n := currentTick + (i + 1 : ℕ) * tickSpacing - tickSpacing) ⟨by omega, by omega⟩
  rw [next] at previous
  have middle := checked_inRange checks (w := 32)
    (n := currentTick + (i + 1 : ℕ) * tickSpacing + (tickSpacing : ℤ).tdiv 2)
    ⟨by omega, by omega⟩
  have positive : (0 : ℤ) < (i + 1 : ℕ) := by omega
  simp only [rightStep, mulChecked, addChecked, subChecked, offset, ok_bind, start, stop, previous,
    if_pos positive, next, sum, checked_inRange checks fits, middle]
  rfl

/-- A bucket to the left takes away the ticks between its start and that of the bucket before. -/
theorem leftStep_ok {state : ℤ × List (LiquidityLevel K)} {i : ℕ} (near : i + 1 ≤ n)
    (fits : InRange 128 (state.1 - liquidityBetween ticks
      (currentTick - (i + 1 : ℕ) * tickSpacing) (currentTick - i * tickSpacing))) :
    leftStep checks ticks currentTick tickSpacing state (i + 1 : ℕ) =
      .ok (state.1 - liquidityBetween ticks (currentTick - (i + 1 : ℕ) * tickSpacing)
          (currentTick - i * tickSpacing),
        state.2 ++ [levelAt (currentTick - (i + 1 : ℕ) * tickSpacing + (tickSpacing : ℤ).tdiv 2)
          (state.1 - liquidityBetween ticks (currentTick - (i + 1 : ℕ) * tickSpacing)
            (currentTick - i * tickSpacing))]) := by
  have before := bucket_bounds inside (Nat.le_of_succ_le near)
  have bounds := bucket_bounds inside near
  have half := half_spacing tickSpacing
  have next : currentTick - (i + 1 : ℕ) * tickSpacing + tickSpacing =
      currentTick - i * tickSpacing := by
    push_cast
    ring
  have sum := crossedSum_ok checks crossed (j := -(i + 1 : ℕ)) (by omega) (by omega)
  have from' : currentTick + -((i + 1 : ℕ) : ℤ) * tickSpacing =
      currentTick - (i + 1 : ℕ) * tickSpacing := by ring
  have upTo' : currentTick + (-((i + 1 : ℕ) : ℤ) + 1) * tickSpacing =
      currentTick - i * tickSpacing := by
    push_cast
    ring
  rw [from', upTo'] at sum
  -- the steps in the order of the source, none of which leaves its word
  have offset := checked_inRange checks (w := 32) (n := (i + 1 : ℕ) * tickSpacing)
    ⟨by omega, by omega⟩
  have start := checked_inRange checks (w := 32) (n := currentTick - (i + 1 : ℕ) * tickSpacing)
    ⟨by omega, by omega⟩
  have upper := checked_inRange checks (w := 32)
    (n := currentTick - (i + 1 : ℕ) * tickSpacing + tickSpacing) ⟨by omega, by omega⟩
  rw [next] at upper
  have middle := checked_inRange checks (w := 32)
    (n := currentTick - (i + 1 : ℕ) * tickSpacing + (tickSpacing : ℤ).tdiv 2)
    ⟨by omega, by omega⟩
  simp only [leftStep, mulChecked, addChecked, subChecked, offset, ok_bind, start, next, upper,
    sum, checked_inRange checks fits, middle]
  rfl

variable {currentLiquidity : ℤ} (sums : SumsFit ticks currentTick tickSpacing currentLiquidity n)
include sums

/-- After `m` buckets the walk to the right holds all it has crossed. -/
theorem rightWalk {m : ℕ} (near : m ≤ n) :
    loop (fun _ => rightStep (K := K) checks ticks currentTick tickSpacing) 0
      (currentLiquidity, []) (upTo m) =
      .ok (currentLiquidity + liquidityBetween ticks currentTick (currentTick + m * tickSpacing),
        (List.range (m + 1)).map fun i : ℕ =>
          rightLevel ticks currentTick tickSpacing currentLiquidity i) := by
  induction m with
  | zero =>
    have first : upTo (0 : ℕ) = [0] := rfl
    rw [first]
    simp only [loop, rightStep_zero checks inside, ok_bind]
    simp [rightLevel, liquidityBetween_self]
  | succ m ih =>
    have before := ih (by omega)
    have total := liquidityBetween_right ticks currentTick tickSpacing m
    -- the tail of the sum is what the last bucket crosses
    have fits := (sums (m + 1) near).1
    rw [← total, ← add_assoc] at fits ⊢
    rw [upTo_succ]
    apply loop_concat.mpr
    refine ⟨_, before, ?_⟩
    rw [rightStep_ok checks inside crossed near fits, List.range_succ (n := m + 1),
      List.map_append, List.map_singleton, rightLevel, ← total, ← add_assoc]

/-- After `m` buckets the walk to the left has taken away all it has crossed. -/
theorem leftWalk {m : ℕ} (near : m ≤ n) :
    loop (fun _ => leftStep (K := K) checks ticks currentTick tickSpacing) 0
      (currentLiquidity, []) (oneUpTo m) =
      .ok (currentLiquidity - liquidityBetween ticks (currentTick - m * tickSpacing) currentTick,
        (List.range m).map fun i : ℕ =>
          leftLevel ticks currentTick tickSpacing currentLiquidity (i + 1)) := by
  induction m with
  | zero =>
    have none : oneUpTo (0 : ℕ) = [] := rfl
    rw [none]
    simp [loop, liquidityBetween_self]
  | succ m ih =>
    have before := ih (by omega)
    have total := liquidityBetween_left ticks currentTick tickSpacing m
    -- the head of the sum is what the last bucket crosses
    have fits := (sums (m + 1) near).2
    have taken : currentLiquidity -
        liquidityBetween ticks (currentTick - (m + 1 : ℕ) * tickSpacing) currentTick =
        currentLiquidity - liquidityBetween ticks (currentTick - m * tickSpacing) currentTick -
          liquidityBetween ticks (currentTick - (m + 1 : ℕ) * tickSpacing)
            (currentTick - m * tickSpacing) := by
      rw [← total]
      ring
    rw [taken] at fits
    rw [oneUpTo_succ]
    apply loop_concat.mpr
    refine ⟨_, before, ?_⟩
    rw [leftStep_ok checks inside crossed near fits, List.range_succ, List.map_append,
      List.map_singleton, leftLevel, ← Nat.cast_add_one, taken]

/-- Where no tick and no sum overflows, the distribution is the closed form. -/
theorem buildDistribution_eq {liquidity : ℕ} (small : liquidity < 2 ^ 127)
    (same : currentLiquidity = liquidity) :
    buildDistribution (K := K) checks ticks currentTick tickSpacing liquidity n =
      .ok (distribution ticks currentTick tickSpacing currentLiquidity n) := by
  have few := inside.buckets
  have buckets : wrapI32 n = n := Int.bmod_eq_of_le (by omega) (by omega)
  have start : wrapI128 liquidity = currentLiquidity := by
    rw [same]
    exact Int.bmod_eq_of_le (by omega) (by omega)
  simp only [buildDistribution, buckets, start]
  rw [rightWalk checks inside crossed sums le_rfl, ok_bind,
    leftWalk checks inside crossed sums le_rfl]
  rfl

end Exact

section Returned

variable {ticks : List (ℤ × ℤ)} {currentTick : ℤ} {tickSpacing : ℕ} {currentLiquidity : ℤ}

/-- A bucket to the right that a build with checks has come through. -/
theorem rightStep_true {state next : ℤ × List (LiquidityLevel K)} {i : ℕ}
    (stepped : rightStep true ticks currentTick tickSpacing state (i + 1 : ℕ) = .ok next) :
    currentTick + (i + 1 : ℕ) * tickSpacing + tickSpacing < 2 ^ 31 ∧
      PrefixesFit 128 0 ((ticks.filter (crosses (currentTick + i * tickSpacing)
        (currentTick + (i + 1) * tickSpacing))).map Prod.snd) ∧
      InRange 128 next.1 ∧
      next.1 = state.1 + liquidityBetween ticks (currentTick + i * tickSpacing)
        (currentTick + (i + 1) * tickSpacing) := by
  have positive : (0 : ℤ) < (i + 1 : ℕ) := by omega
  have first : currentTick + (i + 1 : ℕ) * tickSpacing - tickSpacing =
      currentTick + i * tickSpacing := by
    push_cast
    ring
  simp only [rightStep, mulChecked, addChecked, subChecked, if_pos positive, bind_ok_iff,
    checked_true_iff] at stepped
  -- each operation of the bucket has returned its exact value
  obtain ⟨_, ⟨_, rfl⟩, _, ⟨_, rfl⟩, _, ⟨fits, rfl⟩, _, ⟨_, rfl⟩, delta, summed, _,
    ⟨inside, rfl⟩, mid, _, done⟩ := stepped
  cases done
  obtain ⟨prefixes, total⟩ := loop_addChecked_true (by decide) summed
  subst total
  rw [zero_add] at inside ⊢
  rw [first] at prefixes inside ⊢
  refine ⟨fits.2, ?_, inside, ?_⟩
  · exact_mod_cast prefixes
  · simp only [liquidityBetween]
    push_cast
    rfl

/-- A bucket to the left that a build with checks has come through. -/
theorem leftStep_true {state next : ℤ × List (LiquidityLevel K)} {i : ℕ}
    (stepped : leftStep true ticks currentTick tickSpacing state (i + 1 : ℕ) = .ok next) :
    -2 ^ 31 ≤ currentTick - (i + 1 : ℕ) * tickSpacing ∧
      PrefixesFit 128 0 ((ticks.filter (crosses (currentTick - (i + 1) * tickSpacing)
        (currentTick - i * tickSpacing))).map Prod.snd) ∧
      InRange 128 next.1 ∧
      next.1 = state.1 - liquidityBetween ticks (currentTick - (i + 1) * tickSpacing)
        (currentTick - i * tickSpacing) := by
  have upper : currentTick - (i + 1 : ℕ) * tickSpacing + tickSpacing =
      currentTick - i * tickSpacing := by
    push_cast
    ring
  simp only [leftStep, mulChecked, addChecked, subChecked, bind_ok_iff,
    checked_true_iff] at stepped
  obtain ⟨_, ⟨_, rfl⟩, _, ⟨fits, rfl⟩, _, ⟨_, rfl⟩, delta, summed, _, ⟨inside, rfl⟩, mid, _,
    done⟩ := stepped
  cases done
  obtain ⟨prefixes, total⟩ := loop_addChecked_true (by decide) summed
  subst total
  rw [zero_add] at inside ⊢
  rw [upper] at prefixes inside ⊢
  refine ⟨fits.1, ?_, inside, ?_⟩
  · exact_mod_cast prefixes
  · simp only [liquidityBetween]
    push_cast
    rfl

variable (starts : InRange 128 currentLiquidity)
include starts

theorem rightWalk_true {m : ℕ} {state : ℤ × List (LiquidityLevel K)}
    (walked : loop (fun _ => rightStep true ticks currentTick tickSpacing) 0
      (currentLiquidity, []) (upTo m) = .ok state) :
    state.1 = currentLiquidity +
        liquidityBetween ticks currentTick (currentTick + m * tickSpacing) ∧
      (-2 ^ 31 ≤ currentTick ∧ currentTick + m * tickSpacing + tickSpacing < 2 ^ 31) ∧
      (∀ i : ℕ, i < m → PrefixesFit 128 0 ((ticks.filter (crosses (currentTick + i * tickSpacing)
        (currentTick + (i + 1) * tickSpacing))).map Prod.snd)) ∧
      ∀ i : ℕ, i ≤ m → InRange 128 (currentLiquidity +
        liquidityBetween ticks currentTick (currentTick + i * tickSpacing)) := by
  induction m generalizing state with
  | zero =>
    have first : upTo (0 : ℕ) = [0] := rfl
    rw [first] at walked
    obtain ⟨next, stepped, done⟩ := loop_cons.mp walked
    cases done
    simp only [rightStep, mulChecked, addChecked, bind_ok_iff, checked_true_iff, lt_irrefl,
      if_false] at stepped
    -- the bucket of the current tick crosses nothing
    obtain ⟨_, ⟨_, rfl⟩, _, ⟨start, rfl⟩, _, ⟨fits, rfl⟩, _, same, mid, _, done⟩ := stepped
    cases same
    cases done
    refine ⟨by simp [liquidityBetween_self], ⟨by simpa using start.1, by simpa using fits.2⟩,
      by simp, ?_⟩
    intro i near
    rw [Nat.le_zero.mp near]
    simpa [liquidityBetween_self] using starts
  | succ m ih =>
    rw [upTo_succ] at walked
    obtain ⟨before, through, stepped⟩ := loop_concat.mp walked
    obtain ⟨held, ⟨lowest, _⟩, prefixes, sums⟩ := ih through
    obtain ⟨highest, last, inside, added⟩ := rightStep_true stepped
    have total := liquidityBetween_right ticks currentTick tickSpacing m
    rw [held, ← Nat.cast_add_one, add_assoc, total] at added
    refine ⟨added, ⟨lowest, highest⟩, Nat.forall_lt_succ_right.mpr ⟨prefixes, last⟩, ?_⟩
    intro i near
    rcases Nat.le_succ_iff.mp near with earlier | here
    · exact sums i earlier
    · rw [here, ← added]
      exact inside

theorem leftWalk_true {m : ℕ} {state : ℤ × List (LiquidityLevel K)}
    (walked : loop (fun _ => leftStep true ticks currentTick tickSpacing) 0
      (currentLiquidity, []) (oneUpTo m) = .ok state) :
    state.1 = currentLiquidity -
        liquidityBetween ticks (currentTick - m * tickSpacing) currentTick ∧
      (0 < m → -2 ^ 31 ≤ currentTick - m * tickSpacing) ∧
      (∀ i : ℕ, i < m → PrefixesFit 128 0 ((ticks.filter (crosses
        (currentTick - (i + 1) * tickSpacing) (currentTick - i * tickSpacing))).map Prod.snd)) ∧
      ∀ i : ℕ, i ≤ m → InRange 128 (currentLiquidity -
        liquidityBetween ticks (currentTick - i * tickSpacing) currentTick) := by
  induction m generalizing state with
  | zero =>
    have none : oneUpTo (0 : ℕ) = [] := rfl
    rw [none] at walked
    cases walked
    refine ⟨by simp [liquidityBetween_self], by simp, by simp, ?_⟩
    intro i near
    rw [Nat.le_zero.mp near]
    simpa [liquidityBetween_self] using starts
  | succ m ih =>
    rw [oneUpTo_succ] at walked
    obtain ⟨before, through, stepped⟩ := loop_concat.mp walked
    obtain ⟨held, _, prefixes, sums⟩ := ih through
    obtain ⟨lowest, last, inside, taken⟩ := leftStep_true stepped
    -- one bucket further left, one more term in the sum
    have total := liquidityBetween_left ticks currentTick tickSpacing m
    rw [held, ← Nat.cast_add_one, sub_sub, add_comm, total] at taken
    refine ⟨taken, fun _ => lowest, Nat.forall_lt_succ_right.mpr ⟨prefixes, last⟩, ?_⟩
    intro i near
    rcases Nat.le_succ_iff.mp near with earlier | here
    · exact sums i earlier
    · rw [here, ← taken]
      exact inside

end Returned

/-- Up to 176 buckets a side around a tick of the pool stay far inside `i32`. -/
theorem ticksFit_valid {currentTick : ℤ} {tickSpacing n : ℕ} (u16 : tickSpacing < 2 ^ 16)
    (valid : -443636 ≤ currentTick ∧ currentTick ≤ 443636) (few : n ≤ 176) :
    TicksFit currentTick tickSpacing n := by
  have scaled : n * tickSpacing ≤ 176 * 2 ^ 16 := Nat.mul_le_mul few u16.le
  have reach : (n : ℤ) * tickSpacing ≤ 176 * 2 ^ 16 := by exact_mod_cast scaled
  exact ⟨by omega, by omega, by omega⟩

/-- On the grid it is enough that the running sums fit. -/
theorem buildDistribution_ok {ticks : List (ℤ × ℤ)} {currentTick : ℤ} {tickSpacing : ℕ}
    (u16 : tickSpacing < 2 ^ 16) (grid : OnGrid tickSpacing ticks)
    (fits : ∀ e ∈ ticks, InRange 128 e.2)
    (valid : -443636 ≤ currentTick ∧ currentTick ≤ 443636) {currentLiquidity : ℤ} {n : ℕ}
    (few : n ≤ 176) (sums : SumsFit ticks currentTick tickSpacing currentLiquidity n)
    (checks : Bool) {liquidity : ℕ} (small : liquidity < 2 ^ 127)
    (same : currentLiquidity = liquidity) :
    buildDistribution (K := K) checks ticks currentTick tickSpacing liquidity n =
      .ok (distribution ticks currentTick tickSpacing currentLiquidity n) :=
  buildDistribution_eq checks (ticksFit_valid u16 valid few) (grid.crossedFit fits currentTick n)
    sums small same

end TickLiq
