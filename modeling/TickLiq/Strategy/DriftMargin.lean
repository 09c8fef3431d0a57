import Mathlib.Algebra.Order.BigOperators.Group.List
import TickLiq.Machine.Binary64
import TickLiq.Machine.LittleEndian
import TickLiq.Machine.Loop

/-!
# The Drift margin proxy

The margin check reads eight perp positions of a Drift account at fixed strides and sums
the absolute amounts. The bytes come from the chain, so an amount may be `i64::MIN`, which
has no absolute value. The totals are exact integers, and their ratio is one of `f64`.
-/
namespace TickLiq

open Machine

/-- How the parse may panic. -/
inductive ParsePanic where
  | arithmetic (panic : Panic)
  | sliceIndex
deriving DecidableEq

structure Account where
  owner : String
  data : Bytes

/-- `DRIFT_PROGRAM_ID` -/
def driftProgramId : String := "dRiftyHA39MWEi3m9aunc5MzRF1JYuBsbn6VPcn33UH"

def perpPositionSize : ℕ := 136
def perpPositionBaseOffset : ℕ := 8
def perpPositionQuoteOffset : ℕ := 16
def perpArrayOffset : ℕ := 4400
def maxPerpPositions : ℕ := 8

/-- `try_into().unwrap_or([0u8; 8])` -/
def eightBytes (bytes : Bytes) : Bytes := if bytes.length = 8 then bytes else List.replicate 8 0

def readI64 (payload : Bytes) (start : ℕ) : Except ParsePanic ℤ :=
  match slice payload start (start + 8) with
  | some bytes => .ok (signedFromLe (eightBytes bytes))
  | none => .error .sliceIndex

/-- `i64::abs` -/
def absI64 (checks : Bool) (n : ℤ) : Except ParsePanic ℤ :=
  (checked checks 64 |n|).mapError .arithmetic

structure PerpTotals where
  totalBaseAbs : ℤ
  totalQuoteAbs : ℤ
deriving DecidableEq

/-- The body of the loop over the positions. -/
def addPosition (checks : Bool) (payload : Bytes) (_ : ℕ) (totals : PerpTotals) (i : ℕ) :
    Except ParsePanic PerpTotals := do
  let posStart := perpArrayOffset + i * perpPositionSize
  let base ← readI64 payload (posStart + perpPositionBaseOffset)
  let quote ← readI64 payload (posStart + perpPositionQuoteOffset)
  let baseAbs ← absI64 checks base
  let quoteAbs ← absI64 checks quote
  return {
    totalBaseAbs := saturating 64 (totals.totalBaseAbs + baseAbs)
    totalQuoteAbs := saturating 64 (totals.totalQuoteAbs + quoteAbs) }

/-- `total_quote_abs as f64 / (total_base_abs as f64 + 1.0)` -/
def PerpTotals.ratio (totals : PerpTotals) : Binary64 :=
  (totals.totalQuoteAbs : Binary64) / ((totals.totalBaseAbs : Binary64) + 1)

def marginProxy (checks : Bool) (data : Bytes) : Except ParsePanic (Option Binary64) :=
  if data.length ≤ 8 then .ok none
  else
    match slice data 8 data.length with
    | none => .error .sliceIndex
    | some payload =>
      if payload.length < perpArrayOffset + maxPerpPositions * perpPositionSize then .ok none
      else
        (loop (addPosition checks payload) 0 ⟨0, 0⟩ (List.range maxPerpPositions)).map fun totals =>
          some totals.ratio

/-- `fetched` is the account that the RPC attempts have brought, if one did. -/
def fetchDriftMarginRatioFor (checks : Bool) (fetched : Option Account) :
    Except ParsePanic (Option Binary64) :=
  match fetched with
  | none => .ok none
  | some account =>
    if account.owner ≠ driftProgramId then .ok none else marginProxy checks account.data

/-! ### What the positions hold -/

/-- The amount of position `i` at an offset of its own. -/
def perpAmount (payload : Bytes) (offset i : ℕ) : ℤ :=
  signedFromLe ((payload.drop (perpArrayOffset + i * perpPositionSize + offset)).take 8)

def baseAmount (payload : Bytes) : ℕ → ℤ := perpAmount payload perpPositionBaseOffset

def quoteAmount (payload : Bytes) : ℕ → ℤ := perpAmount payload perpPositionQuoteOffset

/-- The sum of absolute amounts, stopped at the top of `i64`. -/
def exactTotal (amount : ℕ → ℤ) : ℤ :=
  min ((List.range maxPerpPositions).map fun i => |amount i|).sum (2 ^ 63 - 1)

def exactTotals (payload : Bytes) : PerpTotals :=
  { totalBaseAbs := exactTotal (baseAmount payload)
    totalQuoteAbs := exactTotal (quoteAmount payload) }

/-- Only the least `i64` has no absolute value. -/
theorem abs_inRange_iff {n : ℤ} (inside : InRange 64 n) : InRange 64 |n| ↔ n ≠ -2 ^ 63 := by
  obtain ⟨lower, upper⟩ := inside
  rcases abs_cases n with ⟨same, _⟩ | ⟨same, _⟩
  · rw [same, InRange]
    omega
  · rw [same, InRange]
    omega

theorem absI64_of_ne {n : ℤ} (inside : InRange 64 n) (nonMin : n ≠ -2 ^ 63) (checks : Bool) :
    absI64 checks n = .ok |n| := by
  rw [absI64, checked_inRange checks ((abs_inRange_iff inside).mpr nonMin)]
  rfl

theorem absI64_ne {n m : ℤ} (inside : InRange 64 n) (returned : absI64 true n = .ok m) :
    n ≠ -2 ^ 63 := by
  unfold absI64 at returned
  cases absolute : checked true 64 |n| with
  | ok k => exact (abs_inRange_iff inside).mp (checked_true_iff.mp absolute).1
  | error panic =>
    rw [absolute] at returned
    cases returned

section Payload

variable {payload : Bytes}
  (long : perpArrayOffset + maxPerpPositions * perpPositionSize ≤ payload.length)
include long

/-- Both amounts of a position end before the position does. -/
theorem amount_inside {i offset : ℕ} (position : i < maxPerpPositions)
    (fits : offset + 8 ≤ perpPositionSize) :
    perpArrayOffset + i * perpPositionSize + offset + 8 ≤ payload.length := by
  simp only [perpArrayOffset, maxPerpPositions, perpPositionSize] at *
  omega

theorem amount_length {i offset : ℕ} (position : i < maxPerpPositions)
    (fits : offset + 8 ≤ perpPositionSize) :
    ((payload.drop (perpArrayOffset + i * perpPositionSize + offset)).take 8).length = 8 :=
  taken_length (amount_inside long position fits)

theorem readI64_inside {i offset : ℕ} (position : i < maxPerpPositions)
    (fits : offset + 8 ≤ perpPositionSize) :
    readI64 payload (perpArrayOffset + i * perpPositionSize + offset) =
      .ok (perpAmount payload offset i) := by
  rw [readI64, slice_inside (amount_inside long position fits)]
  simp only [eightBytes, amount_length long position fits, if_true, perpAmount]

theorem perpAmount_inRange {i offset : ℕ} (position : i < maxPerpPositions)
    (fits : offset + 8 ≤ perpPositionSize) : InRange 64 (perpAmount payload offset i) := by
  have eight := amount_length long position fits
  have inside := signedFromLe_inRange (List.ne_nil_of_length_pos (by omega : 0 < List.length
    ((payload.drop (perpArrayOffset + i * perpPositionSize + offset)).take 8)))
  rwa [eight] at inside

/-- A position is read at its place, whatever it holds. -/
theorem addPosition_eq {i : ℕ} (position : i < maxPerpPositions) (checks : Bool) (j : ℕ)
    (totals : PerpTotals) : addPosition checks payload j totals i = do
      let baseAbs ← absI64 checks (baseAmount payload i)
      let quoteAbs ← absI64 checks (quoteAmount payload i)
      return {
        totalBaseAbs := saturating 64 (totals.totalBaseAbs + baseAbs)
        totalQuoteAbs := saturating 64 (totals.totalQuoteAbs + quoteAbs) } := by
  have base := readI64_inside long position
    (show perpPositionBaseOffset + 8 ≤ perpPositionSize by decide)
  have quote := readI64_inside long position
    (show perpPositionQuoteOffset + 8 ≤ perpPositionSize by decide)
  simp only [addPosition, base, quote, ok_bind]
  rfl

theorem addPosition_of_ne {i : ℕ} (position : i < maxPerpPositions)
    (base : baseAmount payload i ≠ -2 ^ 63) (quote : quoteAmount payload i ≠ -2 ^ 63)
    (checks : Bool) (j : ℕ) (totals : PerpTotals) : addPosition checks payload j totals i = .ok {
      totalBaseAbs := saturating 64 (totals.totalBaseAbs + |baseAmount payload i|)
      totalQuoteAbs := saturating 64 (totals.totalQuoteAbs + |quoteAmount payload i|) } := by
  have baseAbs : absI64 checks (baseAmount payload i) = _ :=
    absI64_of_ne (perpAmount_inRange long position (by decide)) base checks
  have quoteAbs : absI64 checks (quoteAmount payload i) = _ :=
    absI64_of_ne (perpAmount_inRange long position (by decide)) quote checks
  rw [addPosition_eq long position, baseAbs, quoteAbs]
  rfl

theorem addPosition_ne {i j : ℕ} {totals next : PerpTotals} (position : i < maxPerpPositions)
    (returned : addPosition true payload j totals i = .ok next) :
    baseAmount payload i ≠ -2 ^ 63 ∧ quoteAmount payload i ≠ -2 ^ 63 := by
  rw [addPosition_eq long position] at returned
  obtain ⟨baseAbs, base, returned⟩ := (bind_ok_iff ..).mp returned
  obtain ⟨quoteAbs, quote, _⟩ := (bind_ok_iff ..).mp returned
  exact ⟨absI64_ne (perpAmount_inRange long position (by decide)) base,
    absI64_ne (perpAmount_inRange long position (by decide)) quote⟩

theorem addPosition_sliced {i j : ℕ} {totals : PerpTotals} (position : i < maxPerpPositions)
    (checks : Bool) : addPosition checks payload j totals i ≠ .error .sliceIndex := by
  have absolute : ∀ n, absI64 checks n ≠ .error .sliceIndex := by
    intro n
    unfold absI64
    cases checked checks 64 |n| with
    | ok m => simp [Except.mapError]
    | error panic => simp [Except.mapError]
  intro failed
  rw [addPosition_eq long position] at failed
  cases base : absI64 checks (baseAmount payload i) with
  | error panic =>
    rw [base] at failed
    exact absolute _ (base.trans (congrArg _ (Except.error.inj failed)))
  | ok baseAbs =>
    cases quote : absI64 checks (quoteAmount payload i) with
    | error panic =>
      rw [base, quote] at failed
      exact absolute _ (quote.trans (congrArg _ (Except.error.inj failed)))
    | ok quoteAbs =>
      rw [base, quote] at failed
      cases failed

/-- Saturating sums of what is never negative are the exact sums, stopped at the top. -/
theorem loop_addPosition {positions : List ℕ} (inside : ∀ i ∈ positions, i < maxPerpPositions)
    (defined : ∀ i ∈ positions, baseAmount payload i ≠ -2 ^ 63 ∧ quoteAmount payload i ≠ -2 ^ 63)
    (checks : Bool) (j : ℕ) {base quote : ℤ} (basePos : 0 ≤ base) (quotePos : 0 ≤ quote) :
    loop (addPosition checks payload) j ⟨min base (2 ^ 63 - 1), min quote (2 ^ 63 - 1)⟩ positions =
      .ok ⟨min (base + (positions.map fun i => |baseAmount payload i|).sum) (2 ^ 63 - 1),
        min (quote + (positions.map fun i => |quoteAmount payload i|).sum) (2 ^ 63 - 1)⟩ := by
  -- a sum that is saturated once stays saturated
  have saturated : ∀ total amount : ℤ, 0 ≤ total → 0 ≤ amount →
      saturating 64 (min total (2 ^ 63 - 1) + amount) = min (total + amount) (2 ^ 63 - 1) := by
    intro total amount left right
    unfold saturating
    omega
  induction positions generalizing j base quote with
  | nil => simp [loop]
  | cons i positions ih =>
    obtain ⟨baseDefined, quoteDefined⟩ := defined i (List.mem_cons_self ..)
    have step := addPosition_of_ne long (inside i (List.mem_cons_self ..)) baseDefined quoteDefined
      checks j ⟨min base (2 ^ 63 - 1), min quote (2 ^ 63 - 1)⟩
    rw [saturated _ _ basePos (abs_nonneg _), saturated _ _ quotePos (abs_nonneg _)] at step
    have rest := ih (fun k member => inside k (List.mem_cons_of_mem i member))
      (fun k member => defined k (List.mem_cons_of_mem i member)) (j + 1)
      (add_nonneg basePos (abs_nonneg (baseAmount payload i)))
      (add_nonneg quotePos (abs_nonneg (quoteAmount payload i)))
    rw [List.map_cons, List.sum_cons, List.map_cons, List.sum_cons, ← add_assoc, ← add_assoc]
    exact loop_cons.mpr ⟨_, step, rest⟩

end Payload

theorem exactTotal_nonneg (amount : ℕ → ℤ) : 0 ≤ exactTotal amount := by
  have sum : 0 ≤ ((List.range maxPerpPositions).map fun i => |amount i|).sum := by
    apply List.sum_nonneg
    intro n member
    obtain ⟨i, _, same⟩ := List.mem_map.mp member
    rw [← same]
    exact abs_nonneg _
  unfold exactTotal
  omega

theorem exactTotal_le (amount : ℕ → ℤ) : exactTotal amount ≤ 2 ^ 63 - 1 := min_le_right _ _

/-! ### The ratio -/

namespace PerpTotals

open Binary64

variable {totals : PerpTotals}

/-- A total of `i64` is finite in `f64`. -/
theorem reads_total {n : ℤ} (nonneg : 0 ≤ n) (most : n ≤ 2 ^ 63 - 1) :
    Reads (n : Binary64) (nearest n) ∧ 0 ≤ nearest n ∧ nearest n ≤ (2 ^ 63 : ℕ) := by
  have cast : (0 : ℚ) ≤ n := Int.cast_nonneg nonneg
  have size : |(n : ℚ)| ≤ (2 ^ 63 : ℕ) := by
    rw [abs_of_nonneg cast]
    exact_mod_cast (show n ≤ 2 ^ 63 by omega)
  obtain ⟨reads, bound⟩ := round_atMost size (by decide)
  exact ⟨reads, nearest_nonneg cast, (le_abs_self _).trans bound⟩

theorem ratio_nonneg (quote : 0 ≤ totals.totalQuoteAbs) (quote' : totals.totalQuoteAbs ≤ 2 ^ 63 - 1)
    (base : 0 ≤ totals.totalBaseAbs) (base' : totals.totalBaseAbs ≤ 2 ^ 63 - 1) :
    0 ≤ totals.ratio := by
  obtain ⟨top, nonneg, most⟩ := reads_total quote quote'
  obtain ⟨bottom, nonneg', most'⟩ := reads_total base base'
  have size : |nearest totals.totalBaseAbs + 1| ≤ (2 ^ 64 : ℕ) := by
    rw [abs_of_nonneg (by linarith)]
    norm_num at most' ⊢
    linarith
  have sum := (round_atMost size (by decide)).1
  rw [← bottom.add reads_one] at sum
  have large : 1 ≤ nearest (nearest totals.totalBaseAbs + 1) :=
    le_nearest reads_one.representable (by linarith)
  have quotient := div_nonneg nonneg (zero_le_one.trans large)
  have small : |nearest totals.totalQuoteAbs / nearest (nearest totals.totalBaseAbs + 1)| ≤
      (2 ^ 63 : ℕ) := by
    rw [abs_of_nonneg quotient]
    exact (div_le_self nonneg large).trans most
  have reads := (round_atMost small (by decide)).1
  rw [← top.div sum (one_pos.trans_le large).ne'] at reads
  exact (reads_zero.le_iff reads).mpr (nearest_nonneg quotient)

/-- Two totals that `f64` has are divided with one rounding. -/
theorem ratio_small (quote : 0 ≤ totals.totalQuoteAbs) (base : 0 ≤ totals.totalBaseAbs)
    (quote' : totals.totalQuoteAbs ≤ 2 ^ 53) (base' : totals.totalBaseAbs < 2 ^ 53) :
    Reads totals.ratio (nearest (totals.totalQuoteAbs / (totals.totalBaseAbs + 1))) := by
  have top := reads_intCast (show |totals.totalQuoteAbs| ≤ 2 ^ 53 by rwa [abs_of_nonneg quote])
  have bottom := reads_intCast (n := totals.totalBaseAbs) (by rw [abs_of_nonneg base]; omega)
  have next := reads_intCast (n := totals.totalBaseAbs + 1) (by
    rw [abs_of_nonneg (by omega)]
    omega)
  rw [Int.cast_add, Int.cast_one] at next
  have sum := reads_round_self next.representable next.bounded
  rw [← bottom.add reads_one] at sum
  have positive : (1 : ℚ) ≤ totals.totalBaseAbs + 1 := by
    exact_mod_cast (show 1 ≤ totals.totalBaseAbs + 1 by omega)
  have small : |(totals.totalQuoteAbs : ℚ) / (totals.totalBaseAbs + 1)| ≤ 2 ^ 53 := by
    have nonneg : (0 : ℚ) ≤ totals.totalQuoteAbs := Int.cast_nonneg quote
    rw [abs_of_nonneg (div_nonneg nonneg (zero_le_one.trans positive))]
    exact (div_le_self nonneg positive).trans (by exact_mod_cast quote')
  have reads := reads_round_small small
  rwa [← top.div sum (one_pos.trans_le positive).ne'] at reads

end PerpTotals

/-! ### The proxy -/

section Fetched

variable {disc payload : Bytes}

/-- The account of a Drift user. -/
def driftAccount (disc payload : Bytes) : Option Account := some ⟨driftProgramId, disc ++ payload⟩

theorem fetch_short (anchor : disc.length = 8)
    (short : payload.length < perpArrayOffset + maxPerpPositions * perpPositionSize)
    (checks : Bool) : fetchDriftMarginRatioFor checks (driftAccount disc payload) = .ok none := by
  have data : slice (disc ++ payload) 8 (disc ++ payload).length = some payload := by
    rw [slice, if_pos (by simp [anchor])]
    simp [← anchor]
  simp only [fetchDriftMarginRatioFor, driftAccount, marginProxy, data, if_pos short, ne_eq,
    not_true, if_false]
  split <;> rfl

theorem fetch_long (anchor : disc.length = 8)
    (long : perpArrayOffset + maxPerpPositions * perpPositionSize ≤ payload.length)
    (checks : Bool) : fetchDriftMarginRatioFor checks (driftAccount disc payload) =
      (loop (addPosition checks payload) 0 ⟨0, 0⟩ (List.range maxPerpPositions)).map fun totals =>
        some totals.ratio := by
  have data : slice (disc ++ payload) 8 (disc ++ payload).length = some payload := by
    rw [slice, if_pos (by simp [anchor])]
    simp [← anchor]
  have some : ¬(disc ++ payload).length ≤ 8 := by
    rw [List.length_append, anchor]
    simp only [perpArrayOffset] at long
    omega
  simp only [fetchDriftMarginRatioFor, driftAccount, marginProxy, data, if_neg some, ne_eq,
    not_true, if_false, if_neg (Nat.not_lt.mpr long)]

/-- Amounts of `i64::MIN` apart, the totals are exact and the proxy is their ratio in `f64`, which
rounds once as long as `f64` has both totals; with one the parse overflows. A shorter account
gives no proxy, and no slice is ever out of bounds. -/
theorem margin_exact_iff (anchor : disc.length = 8) :
    (payload.length < perpArrayOffset + maxPerpPositions * perpPositionSize → ∀ checks,
      fetchDriftMarginRatioFor checks (driftAccount disc payload) = .ok none) ∧
    (perpArrayOffset + maxPerpPositions * perpPositionSize ≤ payload.length →
      (∀ checks, fetchDriftMarginRatioFor checks (driftAccount disc payload) ≠
        .error .sliceIndex) ∧
      0 ≤ (exactTotals payload).ratio ∧
      (exactTotal (quoteAmount payload) ≤ 2 ^ 53 → exactTotal (baseAmount payload) < 2 ^ 53 →
        Binary64.Reads (exactTotals payload).ratio (nearest
          (exactTotal (quoteAmount payload) / (exactTotal (baseAmount payload) + 1)))) ∧
      ((∀ checks, fetchDriftMarginRatioFor checks (driftAccount disc payload) =
          .ok (some (exactTotals payload).ratio)) ↔
        ∀ i < maxPerpPositions,
          baseAmount payload i ≠ -2 ^ 63 ∧ quoteAmount payload i ≠ -2 ^ 63)) := by
  refine ⟨fun short checks => fetch_short anchor short checks, fun long => ⟨?_, ?_, ?_, ?_⟩⟩
  · intro checks failed
    rw [fetch_long anchor long] at failed
    cases walked : loop (addPosition checks payload) 0 ⟨0, 0⟩ (List.range maxPerpPositions) with
    | ok totals =>
      rw [walked] at failed
      cases failed
    | error panic =>
      rw [walked] at failed
      -- a failing position would have to read outside the payload
      obtain ⟨j, totals, i, member, stepped⟩ := loop_error walked
      exact addPosition_sliced long (List.mem_range.mp member) checks
        (stepped.trans (congrArg _ (Except.error.inj failed)))
  · exact PerpTotals.ratio_nonneg (exactTotal_nonneg _) (exactTotal_le _) (exactTotal_nonneg _)
      (exactTotal_le _)
  · intro quote base
    exact PerpTotals.ratio_small (exactTotal_nonneg _) (exactTotal_nonneg _) quote base
  · constructor
    · intro exact' i position
      -- the build with checks returns, so no abs overflowed on the way
      have returned := exact' true
      rw [fetch_long anchor long] at returned
      cases walked : loop (addPosition true payload) 0 ⟨0, 0⟩ (List.range maxPerpPositions) with
      | ok totals =>
        obtain ⟨j, before, after, stepped⟩ := loop_each walked i (List.mem_range.mpr position)
        exact addPosition_ne long position stepped
      | error panic =>
        rw [walked] at returned
        cases returned
    · intro defined checks
      -- without the least amount each step is the exact saturating sum
      have walked := loop_addPosition long (fun i member => List.mem_range.mp member)
        (fun i member => defined i (List.mem_range.mp member)) checks 0 le_rfl le_rfl
      rw [fetch_long anchor long]
      simp only [zero_add] at walked
      have start : (⟨min 0 (2 ^ 63 - 1), min 0 (2 ^ 63 - 1)⟩ : PerpTotals) = ⟨0, 0⟩ := rfl
      rw [← start, walked]
      rfl

end Fetched

/-- A user whose first position has a quote amount alone. -/
def quotePayload (quote : ℤ) : Bytes :=
  List.replicate 4416 0 ++ signedToLe 8 quote ++ List.replicate 1064 0

theorem quotePayload_long (quote : ℤ) :
    perpArrayOffset + maxPerpPositions * perpPositionSize ≤ (quotePayload quote).length := by
  rw [quotePayload, List.length_append, List.length_append, signedToLe_length,
    List.length_replicate, List.length_replicate]
  decide

section Amount

variable {amount : Bytes} (eight : amount.length = 8) {before after k : ℕ}
include eight

theorem read_amount : ((List.replicate before 0 ++ amount ++ List.replicate after 0).drop
    before).take 8 = amount := by
  rw [List.append_assoc, List.drop_left' List.length_replicate, List.take_left' eight]

/-- Next to the one amount all bytes are zero. -/
theorem read_zeros (apart : k + 8 ≤ before ∨ before + 8 ≤ k ∧ k + 8 ≤ before + 8 + after) :
    ((List.replicate before 0 ++ amount ++ List.replicate after 0).drop k).take 8 =
      List.replicate 8 0 := by
  rcases apart with left | ⟨right, inside⟩
  · have split : before - k = 8 + (before - k - 8) := by omega
    rw [List.append_assoc, List.drop_append_of_le_length (by rw [List.length_replicate]; omega),
      List.drop_replicate, split, List.replicate_add, List.append_assoc,
      List.take_left' List.length_replicate]
  · have front : (List.replicate before 0 ++ amount).length = before + 8 := by simp [eight]
    have split : after - (k - (before + 8)) = 8 + (before + 8 + after - k - 8) := by omega
    rw [List.drop_append, List.drop_eq_nil_of_le (by rw [front]; exact right), List.nil_append,
      front, List.drop_replicate, split, List.replicate_add, List.take_left' List.length_replicate]

end Amount

theorem signedFromLe_zeros : signedFromLe (List.replicate 8 0) = 0 := by decide

theorem quotePayload_base (quote : ℤ) {i : ℕ} (position : i < maxPerpPositions) :
    baseAmount (quotePayload quote) i = 0 := by
  have apart : perpArrayOffset + i * perpPositionSize + perpPositionBaseOffset + 8 ≤ 4416 ∨
      4416 + 8 ≤ perpArrayOffset + i * perpPositionSize + perpPositionBaseOffset ∧
        perpArrayOffset + i * perpPositionSize + perpPositionBaseOffset + 8 ≤ 4416 + 8 + 1064 := by
    simp only [perpArrayOffset, perpPositionSize, perpPositionBaseOffset, maxPerpPositions] at *
    omega
  rw [baseAmount, perpAmount, quotePayload, read_zeros (signedToLe_length 8 quote) apart,
    signedFromLe_zeros]

theorem quotePayload_quote {quote : ℤ} (inside : InRange 64 quote) {i : ℕ}
    (position : i < maxPerpPositions) :
    quoteAmount (quotePayload quote) i = if i = 0 then quote else 0 := by
  have eight := signedToLe_length 8 quote
  have place : perpArrayOffset + 0 * perpPositionSize + perpPositionQuoteOffset = 4416 := rfl
  split
  next first =>
    rw [first, quoteAmount, perpAmount, quotePayload, place, read_amount eight]
    exact signedFromLe_signedToLe (by decide) inside
  next later =>
    have apart : 4416 + 8 ≤ perpArrayOffset + i * perpPositionSize + perpPositionQuoteOffset ∧
        perpArrayOffset + i * perpPositionSize + perpPositionQuoteOffset + 8 ≤ 4416 + 8 + 1064 := by
      simp only [perpArrayOffset, perpPositionSize, perpPositionQuoteOffset, maxPerpPositions] at *
      omega
    rw [quoteAmount, perpAmount, quotePayload, read_zeros eight (.inr apart), signedFromLe_zeros]

theorem margin_exact_iff_sample :
    fetchDriftMarginRatioFor true (driftAccount (List.replicate 8 0) (quotePayload (-5))) =
      .ok (some (exactTotals (quotePayload (-5))).ratio) := by
  have defined : ∀ i < maxPerpPositions, baseAmount (quotePayload (-5)) i ≠ -2 ^ 63 ∧
      quoteAmount (quotePayload (-5)) i ≠ -2 ^ 63 := by
    intro i position
    rw [quotePayload_base (-5) position, quotePayload_quote (by decide) position]
    split <;> decide
  exact ((margin_exact_iff List.length_replicate).2 (quotePayload_long (-5))).2.2.2.mpr defined true

/-- Empty positions leave the totals as they are. -/
theorem loop_empty (quote : ℤ) (checks : Bool) {positions : List ℕ}
    (empty : ∀ i ∈ positions, i ≠ 0 ∧ i < maxPerpPositions) (inside : InRange 64 quote) (j : ℕ)
    {totals : PerpTotals} (base : InRange 64 totals.totalBaseAbs)
    (amounts : InRange 64 totals.totalQuoteAbs) :
    loop (addPosition checks (quotePayload quote)) j totals positions = .ok totals := by
  induction positions generalizing j with
  | nil => rfl
  | cons i positions ih =>
    obtain ⟨other, position⟩ := empty i (List.mem_cons_self ..)
    have zeroBase := quotePayload_base quote position
    have zeroQuote := quotePayload_quote inside position
    rw [if_neg other] at zeroQuote
    have step := addPosition_of_ne (quotePayload_long quote) position
      (by rw [zeroBase]; decide) (by rw [zeroQuote]; decide) checks j totals
    rw [zeroBase, zeroQuote, abs_zero, add_zero, add_zero, saturating_inRange base,
      saturating_inRange amounts] at step
    have rest := ih (fun k member => empty k (List.mem_cons_of_mem i member)) (j + 1)
    exact loop_cons.mpr ⟨totals, step, rest⟩

/-- With overflow checks the absolute value of `i64::MIN` panics, and without it is negative. -/
theorem margin_of_least :
    fetchDriftMarginRatioFor true (driftAccount (List.replicate 8 0) (quotePayload (-2 ^ 63))) =
        .error (.arithmetic .overflow) ∧
      fetchDriftMarginRatioFor false (driftAccount (List.replicate 8 0)
        (quotePayload (-2 ^ 63))) = .ok (some ((-2 ^ 63 : ℤ) : Binary64)) := by
  have positions : List.range maxPerpPositions = 0 :: [1, 2, 3, 4, 5, 6, 7] := rfl
  have base : baseAmount (quotePayload (-2 ^ 63)) 0 = 0 := quotePayload_base _ (by decide)
  have quote : quoteAmount (quotePayload (-2 ^ 63)) 0 = -2 ^ 63 :=
    quotePayload_quote (by decide) (by decide)
  have first := fun checks => addPosition_eq (quotePayload_long (-2 ^ 63))
    (show 0 < maxPerpPositions by decide) checks 0 ⟨0, 0⟩
  rw [base, quote] at first
  have checked : loop (addPosition true (quotePayload (-2 ^ 63))) 0 ⟨0, 0⟩
      (List.range maxPerpPositions) = .error (.arithmetic .overflow) := by
    rw [positions, loop, first]
    rfl
  have unchecked : loop (addPosition false (quotePayload (-2 ^ 63))) 0 ⟨0, 0⟩
      (List.range maxPerpPositions) = .ok ⟨0, -2 ^ 63⟩ := by
    rw [positions, loop_cons]
    -- the first position wraps, and the others add nothing
    refine ⟨_, (first false).trans rfl, ?_⟩
    exact loop_empty _ false (by decide) (by decide) 1 (by decide) (by decide)
  have long := quotePayload_long (-2 ^ 63)
  rw [fetch_long List.length_replicate long, fetch_long List.length_replicate long, checked,
    unchecked]
  have ratio : PerpTotals.ratio ⟨0, -2 ^ 63⟩ = ((-2 ^ 63 : ℤ) : Binary64) := by decide +kernel
  exact ⟨rfl, congrArg (fun ratio => Except.ok (some ratio)) ratio⟩

end TickLiq
