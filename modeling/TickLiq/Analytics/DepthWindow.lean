import TickLiq.Analytics.Depth
import TickLiq.Protocols.TickArrays

/-!
# The sampled window and the whole pool

Five tick arrays reach at least two arrays, 176 spacings, to either side of the current
tick. A distribution of no more buckets a side sees in them all the ticks it can cross.
-/
namespace TickLiq

open Machine (InRange)

section Window

variable {Bytes : Type} {parseTickArray : Bytes → Except String TickArray}
  {account : ℤ → Option Bytes} {tickSpacing : ℕ} {pool : InitializedTicks tickSpacing}
  {currentTick : ℤ} {n : ℕ}

theorem InitializedTicks.onGrid (pool : InitializedTicks tickSpacing) :
    OnGrid tickSpacing pool.entries :=
  ⟨pool.distinct, pool.aligned⟩

/-- Up to 176 buckets a side stay between the ends of the five arrays. -/
theorem buckets_in_window (positive : 0 < tickSpacing) (few : n ≤ 176) {tick : ℤ}
    (left : currentTick - n * tickSpacing < tick) (right : tick ≤ currentTick + n * tickSpacing) :
    arrayStart currentTick tickSpacing (-2) ≤ tick ∧
      tick < arrayStart currentTick tickSpacing 3 := by
  have middle := arrayStart_current currentTick positive
  have reach : (n : ℤ) * tickSpacing ≤ 176 * tickSpacing :=
    mul_le_mul_of_nonneg_right (by omega) (by omega)
  rw [arrayStart_split, arrayStart_split currentTick tickSpacing 3]
  simp only [tickArraySize] at middle ⊢
  omega

variable (positive : 0 < tickSpacing)
  (mirrored : ∀ start ∈ arrayStarts currentTick tickSpacing,
    Mirrors parseTickArray pool start (account start))
include positive mirrored

theorem windowDeltas_onGrid :
    OnGrid tickSpacing (windowDeltas parseTickArray account currentTick tickSpacing) where
  distinct := by
    rw [List.Nodup, List.pairwise_map]
    exact (windowDeltas_pairwise mirrored positive).imp fun before => before.ne
  aligned e member := pool.aligned e (windowDeltas_subset mirrored member)

theorem windowDeltas_agree (few : n ≤ 176) {e : ℤ × ℤ}
    (left : currentTick - n * tickSpacing < e.1) (right : e.1 ≤ currentTick + n * tickSpacing) :
    e ∈ windowDeltas parseTickArray account currentTick tickSpacing ↔ e ∈ pool.entries := by
  constructor
  · exact windowDeltas_subset mirrored
  · intro member
    obtain ⟨from', upTo'⟩ := buckets_in_window positive few left right
    exact mem_windowDeltas mirrored positive member from' upTo'

/-- Between any two bounds that the buckets reach, the window crosses what the pool does. -/
theorem windowDeltas_between (few : n ≤ 176) {above upto : ℤ}
    (left : currentTick - n * tickSpacing ≤ above) (right : upto ≤ currentTick + n * tickSpacing) :
    liquidityBetween (windowDeltas parseTickArray account currentTick tickSpacing) above upto =
      liquidityBetween pool.entries above upto := by
  apply liquidityBetween_eq (windowDeltas_onGrid positive mirrored) pool.onGrid
  intro e after before
  exact windowDeltas_agree positive mirrored few (by omega) (by omega)

theorem windowDeltas_right (few : n ≤ 176) {i : ℕ} (near : i ≤ n) :
    liquidityBetween (windowDeltas parseTickArray account currentTick tickSpacing) currentTick
        (currentTick + i * tickSpacing) =
      liquidityBetween pool.entries currentTick (currentTick + i * tickSpacing) := by
  have nonneg : (0 : ℤ) ≤ n * tickSpacing := by positivity
  have reach : (i : ℤ) * tickSpacing ≤ n * tickSpacing :=
    mul_le_mul_of_nonneg_right (by omega) (by omega)
  exact windowDeltas_between positive mirrored few (by omega) (by omega)

theorem windowDeltas_left (few : n ≤ 176) {i : ℕ} (near : i ≤ n) :
    liquidityBetween (windowDeltas parseTickArray account currentTick tickSpacing)
        (currentTick - i * tickSpacing) currentTick =
      liquidityBetween pool.entries (currentTick - i * tickSpacing) currentTick := by
  have nonneg : (0 : ℤ) ≤ n * tickSpacing := by positivity
  have reach : (i : ℤ) * tickSpacing ≤ n * tickSpacing :=
    mul_le_mul_of_nonneg_right (by omega) (by omega)
  exact windowDeltas_between positive mirrored few (by omega) (by omega)

theorem windowDeltas_sumsFit (few : n ≤ 176) {currentLiquidity : ℤ}
    (sums : SumsFit pool.entries currentTick tickSpacing currentLiquidity n) :
    SumsFit (windowDeltas parseTickArray account currentTick tickSpacing) currentTick tickSpacing
      currentLiquidity n := by
  intro i near
  rw [windowDeltas_right positive mirrored few near, windowDeltas_left positive mirrored few near]
  exact sums i near

theorem windowDeltas_distribution (few : n ≤ 176) (currentLiquidity : ℤ) :
    distribution (K := ℝ) (windowDeltas parseTickArray account currentTick tickSpacing) currentTick
        tickSpacing currentLiquidity n =
      distribution (K := ℝ) pool.entries currentTick tickSpacing currentLiquidity n := by
  have left : ∀ i ∈ List.range n,
      leftLevel (K := ℝ) (windowDeltas parseTickArray account currentTick tickSpacing) currentTick
        tickSpacing currentLiquidity (i + 1) =
      leftLevel (K := ℝ) pool.entries currentTick tickSpacing currentLiquidity (i + 1) := by
    intro i below
    have near : i + 1 ≤ n := List.mem_range.mp below
    rw [← Nat.cast_add_one, leftLevel, leftLevel, windowDeltas_left positive mirrored few near]
  have right : ∀ i ∈ List.range (n + 1),
      rightLevel (K := ℝ) (windowDeltas parseTickArray account currentTick tickSpacing) currentTick
        tickSpacing currentLiquidity i =
      rightLevel (K := ℝ) pool.entries currentTick tickSpacing currentLiquidity i := by
    intro i below
    have near : i ≤ n := Nat.le_of_lt_succ (List.mem_range.mp below)
    rw [rightLevel, rightLevel, windowDeltas_right positive mirrored few near]
  rw [distribution, distribution, List.map_congr_left left, List.map_congr_left right]

/-- The distribution drawn from the five arrays is that of all the pool's ticks. -/
theorem sampled_window_exact (u16 : tickSpacing < 2 ^ 16)
    (valid : -443636 ≤ currentTick ∧ currentTick ≤ 443636) (few : n ≤ 176)
    {currentLiquidity : ℕ} (small : currentLiquidity < 2 ^ 127)
    (sums : SumsFit pool.entries currentTick tickSpacing currentLiquidity n)
    {getMultipleAccountsChecked : List ℤ → Except String (List (Option Bytes))}
    (answers : getMultipleAccountsChecked (arrayStarts currentTick tickSpacing) =
      .ok ((arrayStarts currentTick tickSpacing).map account)) (checks : Bool) :
    ∃ tickArrays deltas levels,
      fetchTickArrays parseTickArray checks getMultipleAccountsChecked currentTick tickSpacing =
        .ok (.ok tickArrays) ∧
      extractTickDeltas checks tickArrays tickSpacing = .ok deltas ∧
      buildDistribution (K := ℝ) checks deltas currentTick tickSpacing currentLiquidity n = .ok levels ∧
      buildDistribution checks pool.entries currentTick tickSpacing currentLiquidity n =
        .ok levels := by
  have fetched := fetchTickArrays_ok positive u16 valid parseTickArray checks answers
  have bounds : ∀ ta ∈ (arrayStarts currentTick tickSpacing).filterMap
      (fun start => fetchedArray parseTickArray (account start)),
      -18000000 ≤ ta.startTickIndex ∧ ta.startTickIndex ≤ 18000000 := by
    intro ta member
    obtain ⟨start, asked, found⟩ := List.mem_filterMap.mp member
    obtain ⟨o, near, startEq⟩ := List.mem_map.mp asked
    rw [((mirrored start asked).fetched found).1, ← startEq]
    exact arrayStart_bounds positive u16 valid (mem_offsets.mp near)
  -- the window has deltas of the pool only
  have fits : ∀ e ∈ windowDeltas parseTickArray account currentTick tickSpacing,
      InRange 128 e.2 := fun e member => pool.fits e (windowDeltas_subset mirrored member)
  have drawn := buildDistribution_ok (K := ℝ) u16 (windowDeltas_onGrid positive mirrored) fits valid few
    (windowDeltas_sumsFit positive mirrored few sums) checks small rfl
  have whole := buildDistribution_ok (K := ℝ) u16 pool.onGrid pool.fits valid few sums checks small rfl
  -- both are the closed form, over the same liquidities between buckets
  rw [windowDeltas_distribution positive mirrored few] at drawn
  exact ⟨_, _, _, fetched, extractTickDeltas_ok checks u16 bounds, drawn, whole⟩

end Window

/-! ### A pool with a tick on either side -/

/-- An array with one slot set. -/
def oneSlot (start : ℤ) (slot : ℕ) (net : ℤ) : TickArray where
  startTickIndex := start
  ticks i := if i.val = slot then ⟨true, net⟩ else ⟨false, 0⟩

def twoTicks : InitializedTicks 64 where
  entries := [(64, 500), (-64, 200)]
  distinct := by decide
  aligned := by decide
  valid := by decide
  fits := by decide

/-- The ticks are in the second slot of the array at 0 and in the last of the array before. -/
def twoArrays (start : ℤ) : Option TickArray :=
  if start = 0 then some (oneSlot 0 1 500)
  else if start = -5632 then some (oneSlot (-5632) 87 200)
  else none

theorem twoArrays_mirrored : ∀ start ∈ arrayStarts 10 64,
    Mirrors (fun ta => .ok ta) twoTicks start (twoArrays start) := by
  intro start asked
  have starts : arrayStarts 10 64 = [-11264, -5632, 0, 5632, 11264] := by decide
  rw [starts] at asked
  simp only [List.mem_cons, List.not_mem_nil, or_false] at asked
  rcases asked with rfl | rfl | rfl | rfl | rfl
  · show ∀ e ∈ twoTicks.entries, ¬(_ ∧ _)
    decide
  · refine ⟨rfl, fun i net => ?_⟩
    have small := i.isLt
    by_cases last : i.val = 87
    · simp [oneSlot, twoTicks, last, eq_comm]
    · simp [oneSlot, twoTicks, last, tickArraySize] at small ⊢
      omega
  · refine ⟨rfl, fun i net => ?_⟩
    by_cases second : i.val = 1
    · simp [oneSlot, twoTicks, second, eq_comm]
    · simp [oneSlot, twoTicks, second]
      omega
  · show ∀ e ∈ twoTicks.entries, ¬(_ ∧ _)
    decide
  · show ∀ e ∈ twoTicks.entries, ¬(_ ∧ _)
    decide

theorem sampled_window_exact_two : ∃ tickArrays deltas levels,
    fetchTickArrays (fun ta => .ok ta) true (fun starts => .ok (starts.map twoArrays)) 10 64 =
      .ok (.ok tickArrays) ∧
    extractTickDeltas true tickArrays 64 = .ok deltas ∧
    buildDistribution (K := ℝ) true deltas 10 (64 : ℕ) 1000 2 = .ok levels ∧
    buildDistribution true [(64, 500), (-64, 200)] 10 (64 : ℕ) 1000 2 = .ok levels := by
  have sums : SumsFit twoTicks.entries 10 64 (1000 : ℕ) 2 := by
    intro i near
    have few : i = 0 ∨ i = 1 ∨ i = 2 := by omega
    rcases few with rfl | rfl | rfl <;> decide
  exact sampled_window_exact (by decide) twoArrays_mirrored (by decide) (by decide) (by decide)
    (by decide) sums rfl true

end TickLiq
