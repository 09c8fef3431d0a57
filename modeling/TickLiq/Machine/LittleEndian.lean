import Mathlib.Algebra.Order.Group.Int
import TickLiq.Machine.Checked

/-!
# Little-endian integers

Bytes as the digits of a natural number, the least significant first, and the signed
reading of the same bytes.
-/
namespace Machine

abbrev Bytes := List UInt8

def fromLe : Bytes → ℕ
  | [] => 0
  | b :: bs => b.toNat + 256 * fromLe bs

/-- The lowest `n` digits. -/
def toLe : ℕ → ℕ → Bytes
  | 0, _ => []
  | n + 1, v => UInt8.ofNat v :: toLe n (v / 256)

def signedFromLe (bs : Bytes) : ℤ := (fromLe bs : ℤ).bmod (2 ^ (8 * bs.length))

/-- `bytes[start..stop]`, which panics where there is no such slice. -/
def slice (bytes : Bytes) (start stop : ℕ) : Option Bytes :=
  if start ≤ stop ∧ stop ≤ bytes.length then some ((bytes.drop start).take (stop - start))
  else none

theorem radix_pow (n : ℕ) : 2 ^ (8 * n) = 256 ^ n := by
  rw [Nat.pow_mul]

theorem fromLe_lt (bs : Bytes) : fromLe bs < 2 ^ (8 * bs.length) := by
  rw [radix_pow]
  induction bs with
  | nil => simp [fromLe]
  | cons b bs ih =>
    have digit := b.toNat_lt
    rw [fromLe, List.length_cons, Nat.pow_succ]
    omega

@[simp] theorem toLe_length (n v : ℕ) : (toLe n v).length = n := by
  induction n generalizing v with
  | zero => rfl
  | succ n ih => simp [toLe, ih]

theorem fromLe_toLe {n v : ℕ} (fits : v < 2 ^ (8 * n)) : fromLe (toLe n v) = v := by
  rw [radix_pow] at fits
  induction n generalizing v with
  | zero =>
    rw [Nat.pow_zero] at fits
    simp [toLe, fromLe]
    omega
  | succ n ih =>
    rw [Nat.pow_succ] at fits
    have rest := ih (v := v / 256) (by omega)
    simp only [toLe, fromLe, rest, UInt8.toNat_ofNat']
    omega

/-- The digits of a value are the bytes it was read from. -/
theorem toLe_fromLe (bs : Bytes) : toLe bs.length (fromLe bs) = bs := by
  induction bs with
  | nil => rfl
  | cons b bs ih =>
    have digit := b.toNat_lt
    have low : UInt8.ofNat (b.toNat + 256 * fromLe bs) = b := by
      apply UInt8.toNat_inj.mp
      rw [UInt8.toNat_ofNat']
      omega
    have high : (b.toNat + 256 * fromLe bs) / 256 = fromLe bs := by omega
    simp only [List.length_cons, fromLe, toLe, low, high, ih]

/-- The residue nearest to zero is a signed integer of the width. -/
theorem bmod_inRange {w : ℕ} (some : 0 < w) (n : ℤ) : InRange w (n.bmod (2 ^ w)) := by
  have half : (2 : ℤ) ^ w = 2 * 2 ^ (w - 1) := by
    rw [← pow_succ', Nat.sub_add_cancel some]
  have lower := Int.le_bmod (x := n) (m := 2 ^ w) (Nat.two_pow_pos _)
  have upper := Int.bmod_lt (x := n) (m := 2 ^ w) (Nat.two_pow_pos _)
  unfold InRange
  push_cast at lower upper
  rw [half] at lower upper
  constructor
  · omega
  · omega

theorem signedFromLe_inRange {bs : Bytes} (some : bs ≠ []) :
    InRange (8 * bs.length) (signedFromLe bs) := by
  have positive : 0 < bs.length := List.length_pos_iff.mpr some
  exact bmod_inRange (by omega) _

/-- The digits of a signed integer, in two's complement. -/
def signedToLe (n : ℕ) (v : ℤ) : Bytes := toLe n (v % 2 ^ (8 * n)).toNat

@[simp] theorem signedToLe_length (n : ℕ) (v : ℤ) : (signedToLe n v).length = n := toLe_length ..

theorem signedFromLe_signedToLe {n : ℕ} {v : ℤ} (some : 0 < n) (fits : InRange (8 * n) v) :
    signedFromLe (signedToLe n v) = v := by
  have modulus : (0 : ℤ) < 2 ^ (8 * n) := Int.pow_pos (by decide)
  have digits : (v % 2 ^ (8 * n)).toNat < 2 ^ (8 * n) := by
    have upper := Int.emod_lt_of_pos v modulus
    have lower := Int.emod_nonneg v modulus.ne'
    rw [Int.toNat_lt lower]
    exact_mod_cast upper
  have half : (2 : ℤ) ^ (8 * n) = 2 * 2 ^ (8 * n - 1) := by
    rw [← pow_succ', Nat.sub_add_cancel (by omega)]
  have same : ((fromLe (signedToLe n v) : ℕ) : ℤ) = v % 2 ^ (8 * n) := by
    rw [signedToLe, fromLe_toLe digits, Int.toNat_of_nonneg (Int.emod_nonneg v modulus.ne')]
  rw [signedFromLe, signedToLe_length, same]
  have cast : ((2 ^ (8 * n) : ℕ) : ℤ) = 2 ^ (8 * n) := by push_cast; rfl
  rw [← cast, Int.emod_bmod]
  obtain ⟨lower, upper⟩ := fits
  apply Int.bmod_eq_of_le
  · rw [cast, half]
    omega
  · rw [cast, half]
    omega

theorem slice_inside {bytes : Bytes} {start n : ℕ} (inside : start + n ≤ bytes.length) :
    slice bytes start (start + n) = some ((bytes.drop start).take n) := by
  rw [slice, if_pos ⟨by omega, inside⟩, Nat.add_sub_cancel_left]

theorem taken_length {bytes : Bytes} {start n : ℕ} (inside : start + n ≤ bytes.length) :
    ((bytes.drop start).take n).length = n := by
  rw [List.length_take, List.length_drop]
  omega

end Machine
