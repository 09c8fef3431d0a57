import Mathlib.Data.Nat.Notation

/-!
# Decimal text

Bounded naturals are printed by `Nat.toDigits 10` and read back from the left,
giving up as soon as the bound is reached.
-/
namespace Machine

def digitValue (c : Char) : Option ℕ :=
  if '0' ≤ c ∧ c ≤ '9' then some (c.toNat - '0'.toNat) else none

/-- Digits after `acc`, left to right, failing as soon as `limit` is reached. -/
def parseDigits (limit : ℕ) : ℕ → List Char → Option ℕ
  | acc, [] => some acc
  | acc, c :: cs => (digitValue c).bind fun d =>
    if acc * 10 + d < limit then parseDigits limit (acc * 10 + d) cs else none

/-- `from_str` of an unsigned type with values below `limit`. -/
def parseUnsigned (limit : ℕ) : List Char → Option ℕ
  | [] => none
  | ['+'] => none
  | '+' :: digits => parseDigits limit 0 digits
  | digits => parseDigits limit 0 digits

theorem digitValue_digitChar : ∀ d < 10, digitValue (Nat.digitChar d) = some d := by decide

theorem parseDigits_append (limit acc : ℕ) (xs ys : List Char) :
    parseDigits limit acc (xs ++ ys) =
      (parseDigits limit acc xs).bind fun read => parseDigits limit read ys := by
  induction xs generalizing acc with
  | nil => rfl
  | cons c cs ih =>
    simp only [List.cons_append, parseDigits]
    cases digitValue c with
    | none => rfl
    | some d =>
      simp only [Option.bind_some]
      split
      · exact ih _
      · rfl

theorem parseDigits_toDigits {limit n : ℕ} (small : n < limit) :
    parseDigits limit 0 (Nat.toDigits 10 n) = some n := by
  induction n using Nat.strongRecOn with
  | ind n ih =>
    rcases Nat.lt_or_ge n 10 with single | more
    · rw [Nat.toDigits_of_lt_base single]
      simp [parseDigits, digitValue_digitChar n single, small]
    · -- the last digit comes after the digits of the tenth part
      have digit := digitValue_digitChar (n % 10) (Nat.mod_lt n (by decide))
      have rest := ih (n / 10) (by omega) (by omega)
      have whole : n / 10 * 10 + n % 10 = n := by omega
      rw [Nat.toDigits_of_base_le (by decide) more, parseDigits_append, rest]
      simp only [Option.bind_some, parseDigits, digit, whole, if_pos small]

/-- Printing and reading back gives the same number. -/
theorem parseUnsigned_toDigits {limit n : ℕ} (small : n < limit) :
    parseUnsigned limit (Nat.toDigits 10 n) = some n := by
  have parsed := parseDigits_toDigits small
  have sign : ∀ c ∈ Nat.toDigits 10 n, c ≠ '+' := by
    intro c member plus
    have digit := Nat.isDigit_of_mem_toDigits (by decide) (by decide) member
    rw [plus] at digit
    exact absurd digit (by decide)
  unfold parseUnsigned
  split
  next empty => exact absurd empty Nat.toDigits_ne_nil
  next lone => exact absurd rfl (sign '+' (by simp [lone]))
  next digits signed => exact absurd rfl (sign '+' (by simp [signed]))
  next => exact parsed

end Machine
