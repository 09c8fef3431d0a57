import Mathlib.Order.Lattice
import Mathlib.Tactic.TypeStar
import TickLiq.Machine.Checked

/-!
# The rebalance signal

`should_rebalance` subtracts two ticks only when the range test and the P&L gate
let it come that far, so whether it can overflow depends on both.
-/
namespace TickLiq

open Machine (Panic checked subChecked checked_true_iff checked_unchecked bind_ok_iff)

variable {K : Type*} [LT K] [DecidableLT K]

structure RebalanceConfig (K : Type*) where
  rebalanceOutOfRange : Bool
  nearEdgeTicks : ℤ
  minNetPnlUsd : K

inductive RebalanceDecision where
  | hold (reason : String)
  | rebalance (reason : String)
deriving DecidableEq

def shouldRebalance (checks : Bool) (tickCurrent tickLower tickUpper : ℤ) (netPnlUsd : K)
    (config : RebalanceConfig K) : Except Panic RebalanceDecision :=
  if config.rebalanceOutOfRange = true ∧ (tickCurrent < tickLower ∨ tickUpper < tickCurrent) then
    .ok (.rebalance "out of range")
  else if netPnlUsd < config.minNetPnlUsd then .ok (.hold "P&L below threshold")
  else do
    let toLower ← subChecked checks 32 tickCurrent tickLower
    if toLower ≤ config.nearEdgeTicks then return .rebalance "near lower edge"
    let toUpper ← subChecked checks 32 tickUpper tickCurrent
    if toUpper ≤ config.nearEdgeTicks then return .rebalance "near upper edge"
    return .hold "position healthy"

theorem shouldRebalance_unchecked (tickCurrent tickLower tickUpper : ℤ) (netPnlUsd : K)
    (config : RebalanceConfig K) :
    ∃ signal, shouldRebalance false tickCurrent tickLower tickUpper netPnlUsd config =
      .ok signal := by
  obtain ⟨toLower, lowerEq⟩ := checked_unchecked 32 (tickCurrent - tickLower)
  obtain ⟨toUpper, upperEq⟩ := checked_unchecked 32 (tickUpper - tickCurrent)
  simp only [shouldRebalance, subChecked]
  rw [lowerEq, upperEq]
  split
  · exact ⟨_, rfl⟩
  · split
    · exact ⟨_, rfl⟩
    · -- the two edge tests, on differences that wrap
      by_cases lower : toLower ≤ config.nearEdgeTicks
      · exact ⟨_, if_pos lower⟩
      · by_cases upper : toUpper ≤ config.nearEdgeTicks
        · exact ⟨_, (if_neg lower).trans (if_pos upper)⟩
        · exact ⟨_, (if_neg lower).trans (if_neg upper)⟩

/-- With overflow checks the signal is returned when the subtractions that are reached fit. -/
theorem shouldRebalance_returns_iff {tickCurrent tickLower tickUpper : ℤ} {netPnlUsd : K}
    {config : RebalanceConfig K} :
    (∃ signal, shouldRebalance true tickCurrent tickLower tickUpper netPnlUsd config =
        .ok signal) ↔
      (config.rebalanceOutOfRange = true ∧ (tickCurrent < tickLower ∨ tickUpper < tickCurrent)) ∨
        netPnlUsd < config.minNetPnlUsd ∨
        Machine.InRange 32 (tickCurrent - tickLower) ∧
          (tickCurrent - tickLower ≤ config.nearEdgeTicks ∨
            Machine.InRange 32 (tickUpper - tickCurrent)) := by
  unfold shouldRebalance
  split
  -- out of range nothing is subtracted
  next outside => simp [outside]
  next inside =>
    split
    -- nor below the P&L gate
    next below => simp [below]
    next above =>
      simp only [inside, above, false_or, bind_ok_iff, subChecked, checked_true_iff]
      constructor
      · rintro ⟨signal, toLower, ⟨fits, same⟩, decided⟩
        subst same
        refine ⟨fits, ?_⟩
        -- near the lower edge the second distance is never formed
        split at decided
        next near => exact Or.inl near
        next =>
          obtain ⟨toUpper, upper, _⟩ := (bind_ok_iff ..).mp decided
          exact Or.inr (checked_true_iff.mp upper).1
      · rintro ⟨fits, near | upper⟩
        · exact ⟨_, _, ⟨fits, rfl⟩, if_pos near⟩
        · by_cases near : tickCurrent - tickLower ≤ config.nearEdgeTicks
          · exact ⟨_, _, ⟨fits, rfl⟩, if_pos near⟩
          · have tested : ∀ toUpper : ℤ, ∃ signal, (if toUpper ≤ config.nearEdgeTicks then
                (.ok (.rebalance "near upper edge") : Except Panic RebalanceDecision)
              else .ok (.hold "position healthy")) = .ok signal := by
              intro toUpper
              split
              · exact ⟨_, rfl⟩
              · exact ⟨_, rfl⟩
            obtain ⟨signal, decided⟩ := tested (tickUpper - tickCurrent)
            refine ⟨signal, _, ⟨fits, rfl⟩, (if_neg near).trans ?_⟩
            exact (bind_ok_iff ..).mpr ⟨_, Machine.checked_inRange true upper, decided⟩

/-- `a - b` on `i32`, wrapped where it does not fit. -/
def tickDistance (a b : ℤ) : ℤ := (a - b).bmod (2 ^ 32)

theorem subChecked_tickDistance {checks : Bool} {a b distance : ℤ}
    (returned : subChecked checks 32 a b = .ok distance) : distance = tickDistance a b := by
  simp only [subChecked, checked] at returned
  split at returned
  next inside =>
    cases returned
    obtain ⟨lower, upper⟩ := inside
    exact (Int.bmod_eq_of_le (by omega) (by omega)).symm
  next =>
    split at returned
    · cases returned
    · cases returned
      rfl

theorem tickDistance_eq {a b : ℤ} (inside : Machine.InRange 32 (a - b)) :
    tickDistance a b = a - b := by
  obtain ⟨lower, upper⟩ := inside
  exact Int.bmod_eq_of_le (by omega) (by omega)

/-- What makes the signal fire: the range test, or the edge test behind the P&L gate. -/
def Fires (tickCurrent tickLower tickUpper : ℤ) (netPnlUsd : K) (config : RebalanceConfig K) :
    Prop :=
  (config.rebalanceOutOfRange = true ∧ (tickCurrent < tickLower ∨ tickUpper < tickCurrent)) ∨
    (¬ netPnlUsd < config.minNetPnlUsd ∧ (tickDistance tickCurrent tickLower ≤ config.nearEdgeTicks ∨
      tickDistance tickUpper tickCurrent ≤ config.nearEdgeTicks))

theorem shouldRebalance_fires {checks : Bool} {tickCurrent tickLower tickUpper : ℤ} {netPnlUsd : K}
    {config : RebalanceConfig K} {reason : String}
    (decided : shouldRebalance checks tickCurrent tickLower tickUpper netPnlUsd config =
      .ok (.rebalance reason)) : Fires tickCurrent tickLower tickUpper netPnlUsd config := by
  simp only [shouldRebalance] at decided
  split at decided
  next outside => exact Or.inl outside
  next =>
    split at decided
    next => cases decided
    next above =>
      obtain ⟨toLower, lower, decided⟩ := (bind_ok_iff ..).mp decided
      rw [subChecked_tickDistance lower] at decided
      split at decided
      next near => exact Or.inr ⟨above, Or.inl near⟩
      next =>
        obtain ⟨toUpper, upper, decided⟩ := (bind_ok_iff ..).mp decided
        rw [subChecked_tickDistance upper] at decided
        split at decided
        next near => exact Or.inr ⟨above, Or.inr near⟩
        next => cases decided

theorem shouldRebalance_holds {checks : Bool} {tickCurrent tickLower tickUpper : ℤ} {netPnlUsd : K}
    {config : RebalanceConfig K} {reason : String}
    (decided : shouldRebalance checks tickCurrent tickLower tickUpper netPnlUsd config =
      .ok (.hold reason)) : ¬ Fires tickCurrent tickLower tickUpper netPnlUsd config := by
  simp only [shouldRebalance] at decided
  split at decided
  next => cases decided
  next inside =>
    intro fires
    rcases fires with outside | near
    · exact inside outside
    · rw [if_neg near.1] at decided
      obtain ⟨toLower, lower, decided⟩ := (bind_ok_iff ..).mp decided
      rw [subChecked_tickDistance lower] at decided
      split at decided
      next => cases decided
      next farLower =>
        obtain ⟨toUpper, upper, decided⟩ := (bind_ok_iff ..).mp decided
        rw [subChecked_tickDistance upper] at decided
        split at decided
        next => cases decided
        next farUpper => exact near.2.elim farLower farUpper

/-- Within the range a negative edge width holds, as long as the distances fit. -/
theorem shouldRebalance_inside (checks : Bool) {tickCurrent tickLower tickUpper : ℤ}
    {config : RebalanceConfig K} (inside : tickLower ≤ tickCurrent ∧ tickCurrent ≤ tickUpper)
    (fits : Machine.InRange 32 (tickCurrent - tickLower) ∧
      Machine.InRange 32 (tickUpper - tickCurrent))
    (off : config.nearEdgeTicks < 0) (netPnlUsd : K) :
    ∃ reason, shouldRebalance checks tickCurrent tickLower tickUpper netPnlUsd config =
      .ok (.hold reason) := by
  have outside : ¬ (config.rebalanceOutOfRange = true ∧
      (tickCurrent < tickLower ∨ tickUpper < tickCurrent)) := by omega
  have toLower : ¬ tickCurrent - tickLower ≤ config.nearEdgeTicks := by omega
  have toUpper : ¬ tickUpper - tickCurrent ≤ config.nearEdgeTicks := by omega
  rw [shouldRebalance, if_neg outside]
  split
  · exact ⟨_, rfl⟩
  · refine ⟨"position healthy", ?_⟩
    simp only [subChecked, checked, if_pos fits.1, if_pos fits.2]
    simp only [bind, Except.bind, if_neg toLower, if_neg toUpper]
    rfl

end TickLiq
