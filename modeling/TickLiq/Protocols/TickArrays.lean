import Mathlib.Tactic.Linarith
import Mathlib.Tactic.LinearCombination
import Mathlib.Tactic.Ring
import TickLiq.Machine.Loop

/-!
# Tick arrays of a whirlpool

A pool keeps its initialized ticks in accounts of 88 slots, each starting at a multiple
of 88 spacings. Five of them around the current tick are fetched; what is missing or
does not parse is skipped.
-/
namespace TickLiq

open Machine (Panic InRange checked mulChecked addChecked divEuclid checked_inRange
  divEuclid_positive mapM_ok)

def tickArraySize : ℕ := 88

structure Tick where
  initialized : Bool
  liquidityNet : ℤ
deriving DecidableEq

structure TickArray where
  startTickIndex : ℤ
  ticks : Fin tickArraySize → Tick

/-- `tick_spacing as i32 * TICK_ARRAY_SIZE as i32` -/
def tickArraySpan (checks : Bool) (tickSpacing : ℕ) : Except Panic ℤ :=
  mulChecked checks 32 tickSpacing tickArraySize

def tickArrayStartIndex (checks : Bool) (currentTick : ℤ) (tickSpacing : ℕ) : Except Panic ℤ := do
  let span ← tickArraySpan checks tickSpacing
  let arrays ← divEuclid 32 currentTick span
  mulChecked checks 32 arrays span

section Fetch

variable {Bytes : Type} (parseTickArray : Bytes → Except String TickArray)

/-- What is left of an account after the missing and the unparseable are skipped. -/
def fetchedArray (data : Option Bytes) : Option TickArray :=
  match data with
  | some bytes =>
    match parseTickArray bytes with
    | .ok ta => some ta
    | .error _ => none
  | none => none

/-- Accounts are asked for by the start index that seeds their address. -/
def fetchTickArrays (checks : Bool)
    (getMultipleAccountsChecked : List ℤ → Except String (List (Option Bytes)))
    (currentTick : ℤ) (tickSpacing : ℕ) : Except Panic (Except String (List TickArray)) := do
  let span ← tickArraySpan checks tickSpacing
  let centerStart ← tickArrayStartIndex checks currentTick tickSpacing
  let starts ← [-2, -1, 0, 1, 2].mapM fun o => do
    let offset ← mulChecked checks 32 o span
    addChecked checks 32 centerStart offset
  return (getMultipleAccountsChecked starts).map fun datas =>
    (starts.zip datas).filterMap fun account => fetchedArray parseTickArray account.2

end Fetch

def TickArray.slotDelta (ta : TickArray) (checks : Bool) (tickSpacing : ℕ)
    (i : Fin tickArraySize) : Except Panic (Option (ℤ × ℤ)) :=
  if (ta.ticks i).initialized = true then do
    let offset ← mulChecked checks 32 i tickSpacing
    let tickIndex ← addChecked checks 32 ta.startTickIndex offset
    return some (tickIndex, (ta.ticks i).liquidityNet)
  else .ok none

def extractTickDeltas (checks : Bool) (tickArrays : List TickArray) (tickSpacing : ℕ) :
    Except Panic (List (ℤ × ℤ)) := do
  let out ← tickArrays.mapM fun ta => do
    let slots ← (List.finRange tickArraySize).mapM (ta.slotDelta checks tickSpacing)
    return slots.filterMap id
  return out.flatten

/-- The initialized ticks of a pool, in any order. -/
structure InitializedTicks (tickSpacing : ℕ) where
  entries : List (ℤ × ℤ)
  distinct : (entries.map Prod.fst).Nodup
  aligned : ∀ e ∈ entries, (tickSpacing : ℤ) ∣ e.1
  valid : ∀ e ∈ entries, -443636 ≤ e.1 ∧ e.1 ≤ 443636
  fits : ∀ e ∈ entries, InRange 128 e.2

/-- The account of the array at `start` holds that part of the pool's ticks; where there is
none, there is nothing to hold. -/
def Mirrors {Bytes : Type} (parseTickArray : Bytes → Except String TickArray) {tickSpacing : ℕ}
    (pool : InitializedTicks tickSpacing) (start : ℤ) (data : Option Bytes) : Prop :=
  match fetchedArray parseTickArray data with
  | some ta => ta.startTickIndex = start ∧ ∀ (i : Fin tickArraySize) (net : ℤ),
      (ta.ticks i).initialized = true ∧ (ta.ticks i).liquidityNet = net ↔
        (start + i * tickSpacing, net) ∈ pool.entries
  | none => ∀ e ∈ pool.entries, ¬(start ≤ e.1 ∧ e.1 < start + tickSpacing * tickArraySize)

/-! ### The five arrays around a tick -/

/-- The start of the array at `o` from the one that holds `currentTick`. -/
def arrayStart (currentTick : ℤ) (tickSpacing : ℕ) (o : ℤ) : ℤ :=
  currentTick / (tickSpacing * tickArraySize) * (tickSpacing * tickArraySize) +
    o * (tickSpacing * tickArraySize)

def arrayStarts (currentTick : ℤ) (tickSpacing : ℕ) : List ℤ :=
  [-2, -1, 0, 1, 2].map (arrayStart currentTick tickSpacing)

def TickArray.deltas (ta : TickArray) (tickSpacing : ℕ) : List (ℤ × ℤ) :=
  (List.finRange tickArraySize).filterMap fun i =>
    if (ta.ticks i).initialized = true then
      some (ta.startTickIndex + i * tickSpacing, (ta.ticks i).liquidityNet)
    else none

theorem arrayStart_split (currentTick : ℤ) (tickSpacing : ℕ) (o : ℤ) :
    arrayStart currentTick tickSpacing o =
      arrayStart currentTick tickSpacing 0 + o * (tickSpacing * tickArraySize) := by
  simp only [arrayStart, zero_mul, add_zero]

/-- The array in the middle holds the current tick. -/
theorem arrayStart_current (currentTick : ℤ) {tickSpacing : ℕ} (positive : 0 < tickSpacing) :
    arrayStart currentTick tickSpacing 0 ≤ currentTick ∧
      currentTick < arrayStart currentTick tickSpacing 0 + tickSpacing * tickArraySize := by
  have span : (0 : ℤ) < tickSpacing * tickArraySize := by
    simp only [tickArraySize]
    omega
  have floor := Int.mul_ediv_add_emod currentTick (tickSpacing * tickArraySize)
  have least := Int.emod_nonneg currentTick span.ne'
  have most := Int.emod_lt_of_pos currentTick span
  rw [arrayStart, zero_mul, add_zero, mul_comm (currentTick / _)]
  omega

theorem mem_offsets {o : ℤ} : o ∈ [-2, -1, 0, 1, 2] ↔ -2 ≤ o ∧ o ≤ 2 := by
  simp only [List.mem_cons, List.not_mem_nil, or_false]
  omega

/-- A tick that the five arrays span is a slot of one of them. -/
theorem exists_slot {currentTick tick : ℤ} {tickSpacing : ℕ} (positive : 0 < tickSpacing)
    (aligned : (tickSpacing : ℤ) ∣ tick)
    (left : arrayStart currentTick tickSpacing (-2) ≤ tick)
    (right : tick < arrayStart currentTick tickSpacing 3) :
    ∃ start ∈ arrayStarts currentTick tickSpacing, ∃ i : Fin tickArraySize,
      tick = start + i * tickSpacing := by
  obtain ⟨steps, tickEq⟩ := aligned
  have spacing : (0 : ℤ) < tickSpacing := by omega
  -- counted in slots from the middle array
  let slots := steps - currentTick / (tickSpacing * tickArraySize) * tickArraySize
  have whole : tick = arrayStart currentTick tickSpacing 0 + slots * tickSpacing := by
    simp only [slots, arrayStart, tickEq]
    ring
  have low : -2 * tickArraySize ≤ slots := by
    rw [arrayStart_split, whole] at left
    have scaled : (-2 * tickArraySize : ℤ) * tickSpacing ≤ slots * tickSpacing := by linarith
    exact le_of_mul_le_mul_right scaled spacing
  have high : slots < 3 * tickArraySize := by
    rw [arrayStart_split, whole] at right
    have scaled : slots * tickSpacing < (3 * tickArraySize : ℤ) * tickSpacing := by linarith
    exact lt_of_mul_lt_mul_right scaled spacing.le
  simp only [tickArraySize] at low high
  have slot : (slots % tickArraySize).toNat < tickArraySize := by
    simp only [tickArraySize]
    omega
  have offset : ((slots % tickArraySize).toNat : ℤ) = slots % tickArraySize :=
    Int.toNat_of_nonneg (Int.emod_nonneg slots (by decide))
  have near : slots / tickArraySize ∈ [-2, -1, 0, 1, 2] := by
    rw [mem_offsets]
    simp only [tickArraySize]
    omega
  refine ⟨_, List.mem_map_of_mem near, ⟨_, slot⟩, ?_⟩
  · have floor := Int.mul_ediv_add_emod slots tickArraySize
    rw [arrayStart_split, whole, offset]
    linear_combination (-(tickSpacing : ℤ)) * floor

theorem tickArraySpan_ok {tickSpacing : ℕ} (u16 : tickSpacing < 2 ^ 16) (checks : Bool) :
    tickArraySpan checks tickSpacing = .ok (tickSpacing * tickArraySize) := by
  have inside : InRange 32 (tickSpacing * tickArraySize) := by
    simp only [InRange, tickArraySize]
    omega
  simp only [tickArraySpan, mulChecked]
  exact checked_inRange checks inside

section Window

variable {currentTick : ℤ} {tickSpacing : ℕ} (positive : 0 < tickSpacing)
  (u16 : tickSpacing < 2 ^ 16) (valid : -443636 ≤ currentTick ∧ currentTick ≤ 443636)
include positive u16 valid

/-- No array of the window comes near the bounds of `i32`. -/
theorem arrayStart_bounds {o : ℤ} (near : -2 ≤ o ∧ o ≤ 2) :
    -18000000 ≤ arrayStart currentTick tickSpacing o ∧
      arrayStart currentTick tickSpacing o ≤ 18000000 := by
  have middle := arrayStart_current currentTick positive
  rw [arrayStart_split]
  simp only [tickArraySize] at middle ⊢
  have some : o = -2 ∨ o = -1 ∨ o = 0 ∨ o = 1 ∨ o = 2 := by omega
  rcases some with rfl | rfl | rfl | rfl | rfl <;> omega

theorem tickArrayStartIndex_ok (checks : Bool) :
    tickArrayStartIndex checks currentTick tickSpacing =
      .ok (arrayStart currentTick tickSpacing 0) := by
  have span : (0 : ℤ) < tickSpacing * tickArraySize := by
    simp only [tickArraySize]
    omega
  have inside : InRange 32 currentTick := ⟨by omega, by omega⟩
  have bounds := arrayStart_bounds positive u16 valid (show -2 ≤ 0 ∧ 0 ≤ 2 by decide)
  have product : InRange 32 (currentTick / (tickSpacing * tickArraySize) *
      (tickSpacing * tickArraySize)) := by
    rw [arrayStart, zero_mul, add_zero] at bounds
    exact ⟨by omega, by omega⟩
  have multiplied := checked_inRange checks product
  rw [arrayStart, zero_mul, add_zero, ← multiplied]
  simp only [tickArrayStartIndex, tickArraySpan_ok u16 checks]
  show (divEuclid 32 currentTick (tickSpacing * tickArraySize) >>= fun arrays =>
    mulChecked checks 32 arrays (tickSpacing * tickArraySize)) = _
  rw [divEuclid_positive inside span]
  rfl

theorem arrayStarts_ok (checks : Bool) :
    ([-2, -1, 0, 1, 2].mapM fun o => do
      let offset ← mulChecked checks 32 o (tickSpacing * tickArraySize)
      addChecked checks 32 (arrayStart currentTick tickSpacing 0) offset) =
        .ok (arrayStarts currentTick tickSpacing) := by
  apply mapM_ok
  intro o member
  have near := mem_offsets.mp member
  have bounds := arrayStart_bounds positive u16 valid near
  have middle := arrayStart_bounds positive u16 valid (show -2 ≤ 0 ∧ 0 ≤ 2 by decide)
  rw [arrayStart_split currentTick tickSpacing o] at bounds ⊢
  have offset : InRange 32 (o * (tickSpacing * tickArraySize)) := ⟨by omega, by omega⟩
  have start : InRange 32 (arrayStart currentTick tickSpacing 0 +
      o * (tickSpacing * tickArraySize)) := ⟨by omega, by omega⟩
  rw [mulChecked, checked_inRange checks offset]
  exact checked_inRange checks start

/-- The five arrays are asked for in order, and what is found is kept. -/
theorem fetchTickArrays_ok {Bytes : Type} (parseTickArray : Bytes → Except String TickArray)
    (checks : Bool) {getMultipleAccountsChecked : List ℤ → Except String (List (Option Bytes))}
    {account : ℤ → Option Bytes}
    (answers : getMultipleAccountsChecked (arrayStarts currentTick tickSpacing) =
      .ok ((arrayStarts currentTick tickSpacing).map account)) :
    fetchTickArrays parseTickArray checks getMultipleAccountsChecked currentTick tickSpacing =
      .ok (.ok ((arrayStarts currentTick tickSpacing).filterMap
        fun start => fetchedArray parseTickArray (account start))) := by
  -- starts and accounts are paired by position
  have pairs : ((arrayStarts currentTick tickSpacing).map id).zip
      ((arrayStarts currentTick tickSpacing).map account) =
        (arrayStarts currentTick tickSpacing).map fun start => (start, account start) :=
    List.zip_map'
  rw [List.map_id] at pairs
  calc fetchTickArrays parseTickArray checks getMultipleAccountsChecked currentTick tickSpacing
      = ([-2, -1, 0, 1, 2].mapM fun o => do
          let offset ← mulChecked checks 32 o (tickSpacing * tickArraySize)
          addChecked checks 32 (arrayStart currentTick tickSpacing 0) offset) >>= fun starts =>
          .ok ((getMultipleAccountsChecked starts).map fun datas =>
            (starts.zip datas).filterMap fun account =>
              fetchedArray parseTickArray account.2) := by
        simp only [fetchTickArrays, tickArraySpan_ok u16 checks,
          tickArrayStartIndex_ok positive u16 valid checks]
        rfl
    _ = .ok ((getMultipleAccountsChecked (arrayStarts currentTick tickSpacing)).map fun datas =>
          ((arrayStarts currentTick tickSpacing).zip datas).filterMap fun account =>
            fetchedArray parseTickArray account.2) := by
        rw [arrayStarts_ok positive u16 valid checks]
        rfl
    _ = _ := by
        rw [answers]
        show Except.ok (Except.ok (List.filterMap
          (fun account => fetchedArray parseTickArray account.2)
          ((arrayStarts currentTick tickSpacing).zip
            ((arrayStarts currentTick tickSpacing).map account)))) = _
        rw [pairs, List.filterMap_map]
        rfl

end Window

/-- A slot lies within the span of its array. -/
theorem slot_offset (tickSpacing : ℕ) (i : Fin tickArraySize) :
    (0 : ℤ) ≤ i * tickSpacing ∧ (i : ℤ) * tickSpacing ≤ 87 * tickSpacing := by
  have scaled := Nat.mul_le_mul_right tickSpacing (Nat.le_of_lt_succ i.isLt)
  exact ⟨by positivity, by exact_mod_cast scaled⟩

theorem slotDelta_ok (checks : Bool) {ta : TickArray} {tickSpacing : ℕ}
    (u16 : tickSpacing < 2 ^ 16)
    (bounds : -18000000 ≤ ta.startTickIndex ∧ ta.startTickIndex ≤ 18000000)
    (i : Fin tickArraySize) : ta.slotDelta checks tickSpacing i =
      .ok (if (ta.ticks i).initialized = true then
        some (ta.startTickIndex + i * tickSpacing, (ta.ticks i).liquidityNet) else none) := by
  have slot := slot_offset tickSpacing i
  simp only [TickArray.slotDelta]
  split
  next =>
    have offset : InRange 32 (i * tickSpacing) := ⟨by omega, by omega⟩
    have tickIndex : InRange 32 (ta.startTickIndex + i * tickSpacing) := ⟨by omega, by omega⟩
    simp only [mulChecked, addChecked]
    rw [checked_inRange checks offset]
    show (checked checks 32 (ta.startTickIndex + i * tickSpacing) >>= fun tickIndex =>
      .ok (some (tickIndex, (ta.ticks i).liquidityNet))) = _
    rw [checked_inRange checks tickIndex]
    rfl
  next => rfl

theorem extractTickDeltas_ok (checks : Bool) {tickArrays : List TickArray} {tickSpacing : ℕ}
    (u16 : tickSpacing < 2 ^ 16)
    (bounds : ∀ ta ∈ tickArrays, -18000000 ≤ ta.startTickIndex ∧ ta.startTickIndex ≤ 18000000) :
    extractTickDeltas checks tickArrays tickSpacing =
      .ok (tickArrays.flatMap (·.deltas tickSpacing)) := by
  have each : (tickArrays.mapM fun ta => do
      let slots ← (List.finRange tickArraySize).mapM (ta.slotDelta checks tickSpacing)
      return slots.filterMap id) = .ok (tickArrays.map (·.deltas tickSpacing)) := by
    apply mapM_ok
    intro ta member
    rw [mapM_ok fun i _ => slotDelta_ok checks u16 (bounds ta member) i]
    show Except.ok (List.filterMap id _) = _
    rw [List.filterMap_map]
    rfl
  rw [extractTickDeltas, each, List.flatMap_def]
  rfl

/-! ### What the fetched arrays say of the pool -/

theorem mem_deltas {ta : TickArray} {tickSpacing : ℕ} {e : ℤ × ℤ} : e ∈ ta.deltas tickSpacing ↔
    ∃ i : Fin tickArraySize, (ta.ticks i).initialized = true ∧
      (ta.startTickIndex + i * tickSpacing, (ta.ticks i).liquidityNet) = e := by
  simp only [TickArray.deltas, List.mem_filterMap, List.mem_finRange, true_and]
  constructor
  · intro found
    obtain ⟨i, slot⟩ := found
    split at slot
    next set => exact ⟨i, set, Option.some.inj slot⟩
    next => cases slot
  · intro found
    obtain ⟨i, set, same⟩ := found
    exact ⟨i, by rw [if_pos set, same]⟩

theorem deltas_within {ta : TickArray} {tickSpacing : ℕ} (positive : 0 < tickSpacing) {e : ℤ × ℤ}
    (member : e ∈ ta.deltas tickSpacing) :
    ta.startTickIndex ≤ e.1 ∧ e.1 < ta.startTickIndex + tickSpacing * tickArraySize := by
  obtain ⟨i, _, same⟩ := mem_deltas.mp member
  have slot := slot_offset tickSpacing i
  rw [← same]
  simp only [tickArraySize]
  omega

theorem deltas_pairwise (ta : TickArray) {tickSpacing : ℕ} (positive : 0 < tickSpacing) :
    (ta.deltas tickSpacing).Pairwise fun e f => e.1 < f.1 := by
  rw [TickArray.deltas, List.pairwise_filterMap]
  apply (List.pairwise_lt_finRange tickArraySize).imp
  intro i j before e first f second
  have scaled : (i : ℤ) * tickSpacing < j * tickSpacing := by
    have product := Nat.mul_lt_mul_of_pos_right (Fin.lt_def.mp before) positive
    exact_mod_cast product
  split at first
  next =>
    split at second
    next =>
      cases first
      cases second
      exact add_lt_add_right scaled _
    next => cases second
  next => cases first

section Mirrored

variable {Bytes : Type} {parseTickArray : Bytes → Except String TickArray}
  {account : ℤ → Option Bytes} {tickSpacing : ℕ} {pool : InitializedTicks tickSpacing}

theorem Mirrors.fetched {start : ℤ} {data : Option Bytes}
    (mirrors : Mirrors parseTickArray pool start data) {ta : TickArray}
    (found : fetchedArray parseTickArray data = some ta) :
    ta.startTickIndex = start ∧ ∀ (i : Fin tickArraySize) (net : ℤ),
      (ta.ticks i).initialized = true ∧ (ta.ticks i).liquidityNet = net ↔
        (start + i * tickSpacing, net) ∈ pool.entries := by
  simp only [Mirrors, found] at mirrors
  exact mirrors

theorem Mirrors.missing {start : ℤ} {data : Option Bytes}
    (mirrors : Mirrors parseTickArray pool start data)
    (none : fetchedArray parseTickArray data = none) :
    ∀ e ∈ pool.entries, ¬(start ≤ e.1 ∧ e.1 < start + tickSpacing * tickArraySize) := by
  simp only [Mirrors, none] at mirrors
  exact mirrors

/-- The ticks found in the five arrays around `currentTick`. -/
def windowDeltas (parseTickArray : Bytes → Except String TickArray) (account : ℤ → Option Bytes)
    (currentTick : ℤ) (tickSpacing : ℕ) : List (ℤ × ℤ) :=
  ((arrayStarts currentTick tickSpacing).filterMap fun start =>
    fetchedArray parseTickArray (account start)).flatMap (·.deltas tickSpacing)

variable {currentTick : ℤ} (mirrored : ∀ start ∈ arrayStarts currentTick tickSpacing,
  Mirrors parseTickArray pool start (account start))
include mirrored

/-- Nothing is found that the pool does not have. -/
theorem windowDeltas_subset {e : ℤ × ℤ}
    (member : e ∈ windowDeltas parseTickArray account currentTick tickSpacing) :
    e ∈ pool.entries := by
  obtain ⟨ta, fetched, inArray⟩ := List.mem_flatMap.mp member
  obtain ⟨start, asked, found⟩ := List.mem_filterMap.mp fetched
  obtain ⟨startEq, slots⟩ := (mirrored start asked).fetched found
  obtain ⟨i, set, same⟩ := mem_deltas.mp inArray
  rw [← same, startEq]
  exact (slots i _).mp ⟨set, rfl⟩

variable (positive : 0 < tickSpacing)
include positive

/-- Every tick of the pool between the ends of the five arrays is found. -/
theorem mem_windowDeltas {e : ℤ × ℤ} (member : e ∈ pool.entries)
    (left : arrayStart currentTick tickSpacing (-2) ≤ e.1)
    (right : e.1 < arrayStart currentTick tickSpacing 3) :
    e ∈ windowDeltas parseTickArray account currentTick tickSpacing := by
  obtain ⟨start, asked, i, tickEq⟩ := exists_slot positive (pool.aligned e member) left right
  have whole : (start + i * tickSpacing, e.2) = e := Prod.ext tickEq.symm rfl
  cases found : fetchedArray parseTickArray (account start) with
  | none =>
    -- the account would have to hold this slot
    have slot := slot_offset tickSpacing i
    refine absurd ?_ ((mirrored start asked).missing found e member)
    simp only [tickArraySize]
    omega
  | some ta =>
    obtain ⟨startEq, slots⟩ := (mirrored start asked).fetched found
    obtain ⟨set, net⟩ := (slots i e.2).mpr (whole ▸ member)
    refine List.mem_flatMap.mpr ⟨ta, List.mem_filterMap.mpr ⟨start, asked, found⟩, ?_⟩
    exact mem_deltas.mpr ⟨i, set, by rw [startEq, net, whole]⟩

theorem windowDeltas_pairwise :
    (windowDeltas parseTickArray account currentTick tickSpacing).Pairwise
      fun e f => e.1 < f.1 := by
  rw [windowDeltas, List.pairwise_flatMap]
  refine ⟨fun ta _ => deltas_pairwise ta positive, ?_⟩
  rw [List.pairwise_filterMap]
  have apart : (arrayStarts currentTick tickSpacing).Pairwise
      fun s t : ℤ => s + tickSpacing * tickArraySize ≤ t := by
    rw [arrayStarts, List.pairwise_map]
    have ascending : [-2, -1, 0, 1, 2].Pairwise fun o p : ℤ => o + 1 ≤ p := by decide
    apply ascending.imp
    intro o p next
    have scaled := mul_le_mul_of_nonneg_right next
      (show (0 : ℤ) ≤ tickSpacing * tickArraySize by positivity)
    rw [arrayStart_split, arrayStart_split currentTick tickSpacing p]
    linarith
  apply apart.imp_of_mem
  intro s t first second gap ta found tb foundNext e inFirst f inSecond
  have before := (deltas_within positive inFirst).2
  have after := (deltas_within positive inSecond).1
  rw [((mirrored s first).fetched found).1] at before
  rw [((mirrored t second).fetched foundNext).1] at after
  omega

end Mirrored

end TickLiq
