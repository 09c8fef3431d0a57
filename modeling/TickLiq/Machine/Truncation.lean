import Mathlib.Algebra.BigOperators.Group.List.Basic
import Mathlib.Algebra.Order.Floor.Semiring
import Mathlib.Algebra.Order.Ring.Cast
import Mathlib.Tactic.Linarith

/-!
# Sums of truncated amounts

Truncating each summand loses less than one per summand.
-/
namespace Machine

variable {K : Type*} [Field K] [LinearOrder K] [IsStrictOrderedRing K] [FloorSemiring K]

def truncatedSum (amounts : List K) : ℕ := (amounts.map fun x => ⌊x⌋₊).sum

theorem truncatedSum_le (amounts : List K) (positive : ∀ x ∈ amounts, 0 ≤ x) :
    (truncatedSum amounts : K) ≤ amounts.sum := by
  unfold truncatedSum
  induction amounts with
  | nil => simp
  | cons x amounts ih =>
    have head := Nat.floor_le (positive x (List.mem_cons_self ..))
    have rest := ih fun y member => positive y (List.mem_cons_of_mem x member)
    rw [List.map_cons, List.sum_cons, List.sum_cons, Nat.cast_add]
    exact add_le_add head rest

theorem sum_le_truncatedSum (amounts : List K) :
    amounts.sum ≤ truncatedSum amounts + amounts.length := by
  unfold truncatedSum
  induction amounts with
  | nil => simp
  | cons x amounts ih =>
    have head := (Nat.lt_floor_add_one x).le
    rw [List.map_cons, List.sum_cons, List.sum_cons, List.length_cons, Nat.cast_add, Nat.cast_succ]
    linarith

end Machine
