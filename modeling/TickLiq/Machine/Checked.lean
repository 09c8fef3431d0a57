import Mathlib.Algebra.Group.Int.Defs
import Mathlib.Algebra.Group.Nat.Defs

/-!
# Machine arithmetic that may panic

Signed integers of width `w` are integers in `[-2^(w-1), 2^(w-1))`, unsigned ones naturals
below `2^w`. An operation that leaves the range panics in a build with overflow checks
and wraps in one without; division by zero, and a division whose quotient is out of
range, panic in both.
-/
namespace Machine

inductive Panic where
  | overflow
  | divideByZero
deriving DecidableEq

def InRange (w : ℕ) (n : ℤ) : Prop := -2 ^ (w - 1) ≤ n ∧ n < 2 ^ (w - 1)

instance (w : ℕ) (n : ℤ) : Decidable (InRange w n) := inferInstanceAs (Decidable (_ ∧ _))

/-- The result of an operation whose exact value is `n`. -/
def checked (checks : Bool) (w : ℕ) (n : ℤ) : Except Panic ℤ :=
  if InRange w n then .ok n
  else if checks then .error .overflow
  else .ok (n.bmod (2 ^ w))

def mulChecked (checks : Bool) (w : ℕ) (a b : ℤ) : Except Panic ℤ := checked checks w (a * b)

def subChecked (checks : Bool) (w : ℕ) (a b : ℤ) : Except Panic ℤ := checked checks w (a - b)

def addChecked (checks : Bool) (w : ℕ) (a b : ℤ) : Except Panic ℤ := checked checks w (a + b)

/-- The unsigned product of `a` and `b`. -/
def mulUnsigned (checks : Bool) (w : ℕ) (a b : ℕ) : Except Panic ℕ :=
  if a * b < 2 ^ w then .ok (a * b)
  else if checks then .error .overflow
  else .ok (a * b % 2 ^ w)

/-- The unsigned sum of `a` and `b`. -/
def addUnsigned (checks : Bool) (w : ℕ) (a b : ℕ) : Except Panic ℕ :=
  if a + b < 2 ^ w then .ok (a + b)
  else if checks then .error .overflow
  else .ok ((a + b) % 2 ^ w)

/-- Euclidean division; no build wraps here. -/
def divEuclid (w : ℕ) (a b : ℤ) : Except Panic ℤ :=
  if b = 0 then .error .divideByZero
  else if InRange w (a / b) then .ok (a / b)
  else .error .overflow

/-- An operation that stops at the ends of the range. -/
def saturating (w : ℕ) (n : ℤ) : ℤ := max (-2 ^ (w - 1)) (min n (2 ^ (w - 1) - 1))

theorem saturating_inRange {w : ℕ} {n : ℤ} (inside : InRange w n) : saturating w n = n := by
  obtain ⟨lower, upper⟩ := inside
  simp only [saturating]
  omega

theorem ok_bind {ε α β : Type} (a : α) (f : α → Except ε β) : (.ok a : Except ε α) >>= f = f a :=
  rfl

/-- A sequence that returns has returned at each of its steps. -/
theorem bind_ok_iff {ε α β : Type} (x : Except ε α) (f : α → Except ε β) (b : β) :
    x >>= f = .ok b ↔ ∃ a, x = .ok a ∧ f a = .ok b := by
  cases x with
  | error e =>
    constructor
    · intro failed
      cases failed
    · intro returned
      obtain ⟨a, failed, _⟩ := returned
      cases failed
  | ok a =>
    constructor
    · intro continued
      exact ⟨a, rfl, continued⟩
    · intro returned
      obtain ⟨a', same, continued⟩ := returned
      cases same
      exact continued

/-- Inside the range no build can tell the operation from the exact one. -/
theorem checked_inRange (checks : Bool) {w : ℕ} {n : ℤ} (inside : InRange w n) :
    checked checks w n = .ok n := if_pos inside

/-- With overflow checks an operation returns only inside the range. -/
theorem checked_true_iff {w : ℕ} {n m : ℤ} :
    checked true w n = .ok m ↔ InRange w n ∧ n = m := by
  unfold checked
  split
  next inside => simp [inside]
  next outside => simp [outside]

/-- Without overflow checks every operation but division returns. -/
theorem checked_unchecked (w : ℕ) (n : ℤ) : ∃ m, checked false w n = .ok m := by
  unfold checked
  split
  · exact ⟨n, rfl⟩
  · exact ⟨_, rfl⟩

/-- Halves of a word have a product that fits the word. -/
theorem mulUnsigned_halves (checks : Bool) {w a b : ℕ} (left : a < 2 ^ w) (right : b < 2 ^ w) :
    mulUnsigned checks (w + w) a b = .ok (a * b) := by
  have product : a * b < 2 ^ (w + w) := by
    rw [Nat.pow_add]
    exact Nat.mul_lt_mul_of_lt_of_lt left right
  exact if_pos product

theorem addUnsigned_fits (checks : Bool) {w a b : ℕ} (fits : a + b < 2 ^ w) :
    addUnsigned checks w a b = .ok (a + b) := if_pos fits

theorem divEuclid_positive {w : ℕ} {a b : ℤ} (inside : InRange w a) (positive : 0 < b) :
    divEuclid w a b = .ok (a / b) := by
  obtain ⟨lower, upper⟩ := inside
  have quotient : InRange w (a / b) := by
    have zero : (0 : ℤ) < 2 ^ (w - 1) := Int.pow_pos (by decide)
    constructor
    · -- towards zero from below, as the divisor is at least one
      apply Int.le_ediv_of_mul_le positive
      have scaled := Int.mul_le_mul_of_nonneg_left (show (1 : ℤ) ≤ b from positive) (Int.le_of_lt zero)
      rw [Int.mul_one] at scaled
      rw [Int.neg_mul]
      omega
    · apply Int.ediv_lt_of_lt_mul positive
      have scaled := Int.mul_le_mul_of_nonneg_left (show (1 : ℤ) ≤ b from positive) (Int.le_of_lt zero)
      rw [Int.mul_one] at scaled
      omega
  simp only [divEuclid]
  rw [if_neg (by omega), if_pos quotient]

end Machine
