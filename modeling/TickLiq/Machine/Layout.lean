import Mathlib.Data.List.Basic
import TickLiq.Machine.LittleEndian

/-!
# Readers of a fixed layout

A reader takes bytes from the front and leaves the rest. Where every field has a size of
its own, a sequence of readers is a layout: what it needs, what it makes of the bytes, and
that bytes past its end mean nothing to it.
-/
namespace Machine

inductive ReadError where
  | unexpectedLength
  | invalidBool (b : UInt8)
  | notAllBytesRead
deriving DecidableEq

abbrev Reader (α : Type) := StateT Bytes (Except ReadError) α

/-- An unsigned integer of `n` bytes. -/
structure Unsigned (n : ℕ) where
  val : ℕ
  fits : val < 2 ^ (8 * n)
deriving DecidableEq

/-- A signed integer of `n` bytes. -/
structure Signed (n : ℕ) where
  val : ℤ
  fits : InRange (8 * n) val
deriving DecidableEq

theorem taken_fits (n : ℕ) (bytes : Bytes) : fromLe (bytes.take n) < 2 ^ (8 * n) := by
  have digits : (bytes.take n).length ≤ n := List.length_take_le n bytes
  exact Nat.lt_of_lt_of_le (fromLe_lt _) (Nat.pow_le_pow_right (by decide) (by omega))

theorem InRange.wider {v w : ℕ} {n : ℤ} (inside : InRange v n) (wider : v ≤ w) : InRange w n := by
  have bound : (2 : ℤ) ^ (v - 1) ≤ 2 ^ (w - 1) := by
    exact_mod_cast Nat.pow_le_pow_right (n := 2) (by decide) (by omega)
  obtain ⟨lower, upper⟩ := inside
  constructor
  · omega
  · omega

theorem taken_inRange (n : ℕ) (bytes : Bytes) : InRange (8 * n) (signedFromLe (bytes.take n)) := by
  by_cases none : bytes.take n = []
  · have positive : (0 : ℤ) < 2 ^ (8 * n - 1) := Int.pow_pos (by decide)
    have zero : signedFromLe [] = 0 := rfl
    rw [none, zero]
    constructor
    · omega
    · omega
  · have digits : (bytes.take n).length ≤ n := List.length_take_le n bytes
    exact (signedFromLe_inRange none).wider (by omega)

/-! ### What bytes mean -/

def rawOf (n : ℕ) (bytes : Bytes) : Vector UInt8 n := Vector.ofFn fun i => bytes.getD i 0

def unsignedOf (n : ℕ) (bytes : Bytes) : Unsigned n := ⟨fromLe (bytes.take n), taken_fits n bytes⟩

def signedOf (n : ℕ) (bytes : Bytes) : Signed n :=
  ⟨signedFromLe (bytes.take n), taken_inRange n bytes⟩

def boolOf (bytes : Bytes) : Bool := bytes.getD 0 0 == 1

/-- The byte of a Boolean is zero or one. -/
def BoolByte (bytes : Bytes) : Prop := bytes.getD 0 0 = 0 ∨ bytes.getD 0 0 = 1

/-! ### Readers -/

/-- The reader of `n` bytes as they stand. -/
def readExact {α : Type} (n : ℕ) (value : Bytes → α) : Reader α := fun bytes =>
  if n ≤ bytes.length then .ok (value bytes, bytes.drop n) else .error .unexpectedLength

def readRaw (n : ℕ) : Reader (Vector UInt8 n) := readExact n (rawOf n)

def readUnsigned (n : ℕ) : Reader (Unsigned n) := readExact n (unsignedOf n)

def readSigned (n : ℕ) : Reader (Signed n) := readExact n (signedOf n)

def readBool : Reader Bool := fun bytes =>
  match bytes with
  | [] => .error .unexpectedLength
  | b :: rest =>
    if b = 0 then .ok (false, rest) else if b = 1 then .ok (true, rest)
    else .error (.invalidBool b)

def readVector {α : Type} (read : Reader α) : (k : ℕ) → Reader (Vector α k)
  | 0 => return #v[]
  | k + 1 => do
    let front ← readVector read k
    let last ← read
    return front.push last

/-- Everything there is, to the last byte. -/
def readAll {α : Type} (read : Reader α) (bytes : Bytes) : Except ReadError α :=
  match read bytes with
  | .ok (a, []) => .ok a
  | .ok (_, _ :: _) => .error .notAllBytesRead
  | .error e => .error e

/-! ### Layouts -/

/-- `read` takes `n` bytes, refuses those that are not `good`, and makes a `value` of the
others. Neither looks past the `n` bytes. -/
structure Reads {α : Type} (read : Reader α) (n : ℕ) (good : Bytes → Prop) (value : Bytes → α) :
    Prop where
  takes : ∀ bytes, n ≤ bytes.length → good bytes → read bytes = .ok (value bytes, bytes.drop n)
  needs : ∀ bytes a rest, read bytes = .ok (a, rest) → n ≤ bytes.length ∧ good bytes
  front : ∀ bytes tail, n ≤ bytes.length →
    value (bytes ++ tail) = value bytes ∧ (good (bytes ++ tail) ↔ good bytes)

section Rules

variable {α β : Type}

theorem reader_bind (read : Reader α) (next : α → Reader β) (bytes : Bytes) :
    (read >>= next) bytes = read bytes >>= fun taken => next taken.1 taken.2 := rfl

theorem getD_append {bytes : Bytes} (tail : Bytes) {i : ℕ} (inside : i < bytes.length) :
    (bytes ++ tail).getD i 0 = bytes.getD i 0 := by
  simp [List.getD, List.getElem?_append_left inside]

theorem Reads.exact {n : ℕ} {value : Bytes → α}
    (front : ∀ bytes tail, n ≤ bytes.length → value (bytes ++ tail) = value bytes) :
    Reads (readExact n value) n (fun _ => True) value where
  takes bytes long _ := if_pos long
  needs bytes a rest taken := by
    unfold readExact at taken
    split at taken
    next long => exact ⟨long, trivial⟩
    next => cases taken
  front bytes tail long := ⟨front bytes tail long, Iff.rfl⟩

theorem Reads.raw (n : ℕ) : Reads (readRaw n) n (fun _ => True) (rawOf n) := by
  apply Reads.exact
  intro bytes tail long
  unfold rawOf
  congr 1
  funext i
  exact getD_append tail (by omega)

theorem Reads.unsigned (n : ℕ) : Reads (readUnsigned n) n (fun _ => True) (unsignedOf n) := by
  apply Reads.exact
  intro bytes tail long
  simp only [unsignedOf, List.take_append_of_le_length long]

theorem Reads.signed (n : ℕ) : Reads (readSigned n) n (fun _ => True) (signedOf n) := by
  apply Reads.exact
  intro bytes tail long
  simp only [signedOf, List.take_append_of_le_length long]

theorem Reads.bool : Reads readBool 1 BoolByte boolOf where
  takes bytes long good := by
    cases bytes with
    | nil => cases long
    | cons b rest =>
      rcases good with zero | one
      · have zero : b = 0 := zero
        simp [readBool, boolOf, zero]
      · have one : b = 1 := one
        simp [readBool, boolOf, one]
  needs bytes a rest taken := by
    cases bytes with
    | nil => cases taken
    | cons b bytes =>
      refine ⟨by simp, ?_⟩
      simp only [readBool] at taken
      split at taken
      next zero => exact .inl zero
      next =>
        split at taken
        next one => exact .inr one
        -- any other byte is refused
        next => cases taken
  front bytes tail long := by
    have first := getD_append tail (show 0 < bytes.length by omega)
    constructor
    · rw [boolOf, first, boolOf]
    · rw [BoolByte, first, BoolByte]

theorem Reads.pure (a : α) : Reads (pure a) 0 (fun _ => True) (fun _ => a) where
  takes _ _ _ := rfl
  needs _ _ _ _ := ⟨Nat.zero_le _, trivial⟩
  front _ _ _ := ⟨rfl, Iff.rfl⟩

/-- The second layout begins where the first ends. -/
theorem Reads.bind {read : Reader α} {next : α → Reader β} {n m : ℕ} {good : Bytes → Prop}
    {goodNext : Bytes → Prop} {value : Bytes → α} {valueNext : α → Bytes → β}
    (first : Reads read n good value)
    (second : ∀ a, Reads (next a) m goodNext (valueNext a)) :
    Reads (read >>= next) (n + m) (fun bytes => good bytes ∧ goodNext (bytes.drop n))
      (fun bytes => valueNext (value bytes) (bytes.drop n)) where
  takes bytes long both := by
    obtain ⟨good, goodNext⟩ := both
    rw [reader_bind, first.takes bytes (by omega) good, ok_bind,
      (second _).takes _ (by rw [List.length_drop]; omega) goodNext, List.drop_drop]
  needs bytes b rest taken := by
    rw [reader_bind] at taken
    obtain ⟨⟨a, between⟩, before, after⟩ := (bind_ok_iff ..).mp taken
    obtain ⟨long, good⟩ := first.needs bytes a between before
    rw [first.takes bytes long good] at before
    cases before
    obtain ⟨longer, goodNext⟩ := (second _).needs _ b rest after
    rw [List.length_drop] at longer
    exact ⟨by omega, good, goodNext⟩
  -- a longer text changes nothing in front
  front bytes tail long := by
    obtain ⟨same, good⟩ := first.front bytes tail (by omega)
    obtain ⟨sameNext, goodNext⟩ := (second (value bytes)).front (bytes.drop n) tail
      (by rw [List.length_drop]; omega)
    rw [same, List.drop_append_of_le_length (by omega), sameNext, good, goodNext]
    exact ⟨rfl, Iff.rfl⟩

theorem Reads.congr {read : Reader α} {n m : ℕ} {good good' : Bytes → Prop}
    {value value' : Bytes → α} (reads : Reads read n good value) (size : n = m)
    (goods : ∀ bytes, good bytes ↔ good' bytes) (values : ∀ bytes, value bytes = value' bytes) :
    Reads read m good' value' := by
  obtain rfl : value = value' := funext values
  obtain rfl : good = good' := funext fun bytes => propext (goods bytes)
  rwa [← size]

theorem Reads.vector {read : Reader α} {n : ℕ} {good : Bytes → Prop} {value : Bytes → α}
    (each : Reads read n good value) (k : ℕ) :
    Reads (readVector read k) (k * n) (fun bytes => ∀ i < k, good (bytes.drop (i * n)))
      (fun bytes => Vector.ofFn fun i : Fin k => value (bytes.drop (i * n))) := by
  induction k with
  | zero =>
    refine (Reads.pure #v[]).congr (by omega) ?_ ?_
    · intro bytes
      simp
    · intro bytes
      rfl
  | succ k ih =>
    -- the last element stands behind the `k` before it
    refine (ih.bind fun front => each.bind fun last => Reads.pure (front.push last)).congr ?_ ?_ ?_
    · rw [Nat.succ_mul, Nat.add_zero]
    · intro bytes
      rw [Nat.forall_lt_succ_right, and_true]
    · intro bytes
      rw [Vector.ofFn_succ]
      rfl

/-- What follows the layout may be exchanged for anything. -/
theorem Reads.cut {read : Reader α} {n : ℕ} {good : Bytes → Prop} {value : Bytes → α}
    (reads : Reads read n good value) {bytes : Bytes} (long : n ≤ bytes.length) (tail : Bytes) :
    value (bytes.take n ++ tail) = value bytes := by
  have room : n ≤ (bytes.take n).length := by
    rw [List.length_take]
    omega
  have whole := (reads.front (bytes.take n) (bytes.drop n) room).1
  rw [List.take_append_drop] at whole
  rw [(reads.front (bytes.take n) tail room).1, whole]

/-- A reader of the whole input has the length of the layout to the byte. -/
theorem readAll_ok_iff {read : Reader α} {n : ℕ} {good : Bytes → Prop} {value : Bytes → α}
    (reads : Reads read n good value) (bytes : Bytes) (a : α) :
    readAll read bytes = .ok a ↔ bytes.length = n ∧ good bytes ∧ value bytes = a := by
  constructor
  · intro taken
    unfold readAll at taken
    split at taken
    next b whole =>
      obtain ⟨long, good⟩ := reads.needs bytes b [] whole
      rw [reads.takes bytes long good] at whole
      obtain ⟨same, rest⟩ := Prod.mk.inj (Except.ok.inj whole)
      -- nothing is left, so there is nothing past the layout
      have short := congrArg List.length rest
      rw [List.length_drop, List.length_nil] at short
      exact ⟨by omega, good, same.trans (Except.ok.inj taken)⟩
    next => cases taken
    next => cases taken
  · rintro ⟨size, good, rfl⟩
    have whole : bytes.drop n = [] := List.drop_eq_nil_of_le (by omega)
    rw [readAll, reads.takes bytes (by omega) good, whole]

/-! ### What is written is read -/

def Unsigned.write {n : ℕ} (u : Unsigned n) : Bytes := toLe n u.val

def Signed.write {n : ℕ} (i : Signed n) : Bytes := signedToLe n i.val

def writeBool (b : Bool) : Bytes := [if b then 1 else 0]

/-- What a reader makes of a written value and any bytes after it. -/
def Restores (read : Reader α) (write : α → Bytes) : Prop :=
  ∀ a tail, read (write a ++ tail) = .ok (a, tail)

theorem Restores.bind {read : Reader α} {write : α → Bytes} (restores : Restores read write)
    (next : α → Reader β) (a : α) (tail : Bytes) :
    (read >>= next) (write a ++ tail) = next a tail := by
  rw [reader_bind, restores a tail, ok_bind]

/-- The bytes of a written value are a layout that means it. -/
theorem Restores.value {read : Reader α} {write : α → Bytes} {n : ℕ} {good : Bytes → Prop}
    {value : Bytes → α} (restores : Restores read write) (reads : Reads read n good value) (a : α)
    (tail : Bytes) : n ≤ (write a ++ tail).length ∧ value (write a ++ tail) = a := by
  have taken := restores a tail
  obtain ⟨long, good⟩ := reads.needs _ _ _ taken
  rw [reads.takes _ long good] at taken
  exact ⟨long, (Prod.mk.inj (Except.ok.inj taken)).1⟩

theorem Restores.exact {n : ℕ} {value : Bytes → α} {write : α → Bytes}
    (size : ∀ a, (write a).length = n) (value_write : ∀ a tail, value (write a ++ tail) = a) :
    Restores (readExact n value) write := by
  intro a tail
  have long : n ≤ (write a ++ tail).length := by
    rw [List.length_append, size]
    omega
  rw [readExact, if_pos long, value_write, List.drop_left' (size a)]

theorem restores_raw (n : ℕ) : Restores (readRaw n) Vector.toList := by
  apply Restores.exact
  · intro bytes
    exact Vector.length_toList
  intro bytes tail
  apply Vector.ext
  intro i inside
  rw [rawOf, Vector.getElem_ofFn, getD_append tail (by simpa using inside)]
  simp [inside]

theorem restores_unsigned (n : ℕ) : Restores (readUnsigned n) Unsigned.write := by
  apply Restores.exact
  · intro u
    exact toLe_length n u.val
  intro u tail
  have digits : fromLe (toLe n u.val) = u.val := fromLe_toLe u.fits
  simp only [unsignedOf, Unsigned.write, List.take_left' (toLe_length n u.val), digits]

theorem restores_signed {n : ℕ} (some : 0 < n) : Restores (readSigned n) Signed.write := by
  apply Restores.exact
  · intro i
    exact signedToLe_length n i.val
  intro i tail
  have digits := signedFromLe_signedToLe some i.fits
  simp only [signedOf, Signed.write, List.take_left' (signedToLe_length n i.val), digits]

theorem restores_bool : Restores readBool writeBool := by
  intro b tail
  cases b <;> rfl

/-- Elements that are written one after the other are read back in their order. -/
theorem Restores.vector {read : Reader α} {write : α → Bytes} (restores : Restores read write)
    (k : ℕ) : Restores (readVector read k) fun values => values.toList.flatMap write := by
  induction k with
  | zero =>
    intro values tail
    obtain rfl : values = #v[] := Vector.eq_empty
    rfl
  | succ k ih =>
    intro values tail
    obtain ⟨front, last, rfl⟩ : ∃ front last, values = Vector.push front last :=
      ⟨values.pop, values.back, (Vector.push_pop_back values).symm⟩
    simp only [readVector, Vector.toList_push, List.flatMap_append, List.flatMap_cons,
      List.flatMap_nil, List.append_nil, List.append_assoc, ih.bind, restores.bind]
    rfl

theorem Restores.readAll {read : Reader α} {write : α → Bytes} (restores : Restores read write)
    (a : α) : readAll read (write a) = .ok a := by
  have taken := restores a []
  rw [List.append_nil] at taken
  rw [Machine.readAll, taken]

end Rules

end Machine
