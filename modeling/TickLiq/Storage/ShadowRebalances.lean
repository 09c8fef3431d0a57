import TickLiq.Strategy.RiskMonitor

/-!
# The `shadow_rebalances` table and the live gate

Rows are only ever inserted, with the time of the server. `--live` asks for a first row of the
pool that is two weeks old, and for no row of it that is flagged as an error.
-/
namespace TickLiq

structure ShadowRebalanceRow (K : Type*) where
  poolAddress : String
  triggerReason : String
  price : K
  simulatedRangeWidth : Option K
  simulatedFeesEarned : Option K
  simulatedIlUsd : Option K
  simulatedNetPnl : Option K
  errorFlag : Bool
  errorMessage : Option String
deriving DecidableEq

/-- A row and its `created_at`, in microseconds. -/
structure StoredShadowRow (K : Type*) where
  createdAt : ℤ
  row : ShadowRebalanceRow K
deriving DecidableEq

abbrev ShadowRebalances (K : Type*) := List (StoredShadowRow K)

/-- The days of shadow data that `--live` asks for. -/
def shadowGateRequiredDays : ℤ := 14

/-- `chrono::Duration::days`, in microseconds. -/
def durationDays (days : ℤ) : ℤ := days * 86400000000

inductive GateStatus where
  | pass
  | noData (poolAddress : String)
  | tooRecent (earliest : ℤ) (requiredAgeDays : ℤ)
  | errorsPresent (count : ℕ)
deriving DecidableEq

namespace GateStatus

def isPass : GateStatus → Bool
  | .pass => true
  | _ => false

def describe (toRfc3339 : ℤ → String) : GateStatus → String
  | .pass => "shadow gate PASSED"
  | .noData poolAddress =>
    s!"shadow gate FAILED: no shadow_rebalances rows for pool {poolAddress}"
  | .tooRecent earliest requiredAgeDays =>
    "shadow gate FAILED: earliest shadow row is " ++ toRfc3339 earliest ++
      s!", requires {requiredAgeDays} days of runtime before --live"
  | .errorsPresent count =>
    s!"shadow gate FAILED: {count} error-flagged shadow_rebalances rows must be zero"

end GateStatus

namespace ShadowRebalances

variable {K : Type*}

/-- `write_shadow_rebalance` -/
def writeShadowRebalance (table : ShadowRebalances K) (row : ShadowRebalanceRow K)
    (now : ℤ) : ShadowRebalances K :=
  table ++ [⟨now, row⟩]

/-- The row that a skipped approval leaves; a skip is no error. -/
def approvalSkip (poolAddress reason : String) (price : K) : ShadowRebalanceRow K where
  poolAddress := poolAddress
  triggerReason := "approval_" ++ reason
  price := price
  simulatedRangeWidth := none
  simulatedFeesEarned := none
  simulatedIlUsd := none
  simulatedNetPnl := none
  errorFlag := false
  errorMessage := some ("Rebalance skipped: " ++ reason)

/-- `write_approval_skip` -/
def writeApprovalSkip (table : ShadowRebalances K) (poolAddress reason : String) (price : K)
    (now : ℤ) : ShadowRebalances K :=
  table ++ [⟨now, approvalSkip poolAddress reason price⟩]

def ofPool (table : ShadowRebalances K) (poolAddress : String) : ShadowRebalances K :=
  table.filter fun stored => stored.row.poolAddress == poolAddress

/-- `SELECT MIN(created_at) .. WHERE pool_address = $1` -/
def earliest (table : ShadowRebalances K) (poolAddress : String) : Option ℤ :=
  ((table.ofPool poolAddress).map StoredShadowRow.createdAt).min?

/-- `SELECT COUNT(*) .. WHERE pool_address = $1 AND error_flag = true` -/
def errorCount (table : ShadowRebalances K) (poolAddress : String) : ℕ :=
  (table.ofPool poolAddress).countP fun stored => stored.row.errorFlag

def checkShadowGate (table : ShadowRebalances K) (poolAddress : String) (now : ℤ) :
    GateStatus :=
  match table.earliest poolAddress with
  | none => .noData poolAddress
  | some earliest =>
    if now - earliest < durationDays shadowGateRequiredDays then
      .tooRecent earliest shadowGateRequiredDays
    else
      let errorCount := table.errorCount poolAddress
      if 0 < errorCount then .errorsPresent errorCount else .pass

/-- No row is flagged as an error. -/
def ErrorFree (table : ShadowRebalances K) : Prop :=
  ∀ stored ∈ table, stored.row.errorFlag = false

theorem mem_ofPool {table : ShadowRebalances K} {poolAddress : String}
    {stored : StoredShadowRow K} :
    stored ∈ table.ofPool poolAddress ↔ stored ∈ table ∧ stored.row.poolAddress = poolAddress := by
  simp [ofPool]

/-- The gate asks for one row that is old enough, and for no error among all of them. -/
theorem checkShadowGate_pass_iff {table : ShadowRebalances K} {poolAddress : String}
    {now : ℤ} :
    table.checkShadowGate poolAddress now = .pass ↔
      (∃ stored ∈ table, stored.row.poolAddress = poolAddress ∧
        stored.createdAt + durationDays shadowGateRequiredDays ≤ now) ∧
      ∀ stored ∈ table, stored.row.poolAddress = poolAddress → stored.row.errorFlag = false := by
  have errors : table.errorCount poolAddress = 0 ↔
      ∀ stored ∈ table, stored.row.poolAddress = poolAddress →
        stored.row.errorFlag = false := by
    rw [errorCount, List.countP_eq_zero]
    constructor
    · intro none stored member here
      exact Bool.eq_false_iff.mpr (none stored (mem_ofPool.mpr ⟨member, here⟩))
    · intro none stored member
      obtain ⟨member, here⟩ := mem_ofPool.mp member
      exact Bool.eq_false_iff.mp (none stored member here)
  cases first : table.earliest poolAddress with
  | none =>
    have empty : table.ofPool poolAddress = [] := by
      simpa [earliest, List.min?_eq_none_iff] using first
    simp only [checkShadowGate, first, reduceCtorEq, false_iff]
    rintro ⟨⟨stored, member, here, _⟩, _⟩
    have inside := mem_ofPool.mpr ⟨member, here⟩
    rw [empty] at inside
    cases inside
  | some earliest =>
    obtain ⟨member, least⟩ := List.min?_eq_some_iff.mp first
    obtain ⟨oldest, inside, rfl⟩ := List.mem_map.mp member
    obtain ⟨inTable, here⟩ := mem_ofPool.mp inside
    -- the earliest row is old enough exactly when some row is
    have aged : (∃ stored ∈ table, stored.row.poolAddress = poolAddress ∧
        stored.createdAt + durationDays shadowGateRequiredDays ≤ now) ↔
          oldest.createdAt + durationDays shadowGateRequiredDays ≤ now := by
      constructor
      · rintro ⟨stored, member, same, old⟩
        have bound := least stored.createdAt
          (List.mem_map_of_mem (mem_ofPool.mpr ⟨member, same⟩))
        omega
      · intro old
        exact ⟨oldest, inTable, here, old⟩
    rw [aged, ← errors]
    simp only [checkShadowGate, first]
    split
    next young =>
      simp only [reduceCtorEq, false_iff, not_and]
      intro old
      omega
    next old =>
      split
      next present =>
        simp only [reduceCtorEq, false_iff, not_and]
        intro _ none
        omega
      next none => exact iff_of_true rfl ⟨by omega, by omega⟩

/-- Rows without errors and a later time do not close the gate again. -/
theorem checkShadowGate_grows {table more : ShadowRebalances K} {poolAddress : String}
    {now later : ℤ} (passed : table.checkShadowGate poolAddress now = .pass)
    (clean : ErrorFree more) (after : now ≤ later) :
    ShadowRebalances.checkShadowGate (table ++ more) poolAddress later = .pass := by
  obtain ⟨⟨stored, member, here, old⟩, none⟩ := checkShadowGate_pass_iff.mp passed
  refine checkShadowGate_pass_iff.mpr ⟨⟨stored, List.mem_append_left _ member, here, ?_⟩, ?_⟩
  · omega
  · intro other found same
    rcases List.mem_append.mp found with before | added
    · exact none other before same
    · exact clean other added

end ShadowRebalances

end TickLiq
