import Mathlib.Algebra.Order.Floor.Ring
import Mathlib.Algebra.Order.Floor.Semiring
import Mathlib.Data.Rat.Floor
import Mathlib.Tactic.Linarith
import Mathlib.Tactic.Positivity
import Mathlib.Tactic.Ring

/-!
# IEEE 754 binary64

A finite value is a rational of 53 significant bits and at most 1074 bits behind the point.
Every operation rounds its exact result to the nearest such value, ties to even, and past
the largest one to an infinity. The sign of a zero is not kept, nor is the payload of a NaN.
-/
namespace Machine

/-! ### Rounding -/

/-- How many of the smallest positive value make one. -/
def unitsPerOne : ℚ := (2 ^ 1074 : ℕ)

/-- An integer of 53 bits, shifted by `e` from the last place of the format. -/
def Representable (q : ℚ) : Prop :=
  ∃ (m : ℤ) (e : ℕ), |m| ≤ 2 ^ 53 ∧ q = m * (2 ^ e : ℕ) / unitsPerOne

/-- To the nearest integer, a half to the even one. -/
def roundEven (y : ℚ) : ℤ :=
  if y - ⌊y⌋ < 1 / 2 then ⌊y⌋
  else if 1 / 2 < y - ⌊y⌋ then ⌊y⌋ + 1
  else if ⌊y⌋ % 2 = 0 then ⌊y⌋
  else ⌊y⌋ + 1

/-- The last place of the 53 bits of `q`, which for a subnormal is the last of the format. -/
def lastPlace (q : ℚ) : ℕ := Nat.log2 ⌊|q| * unitsPerOne⌋₊ - 52

def nearest (q : ℚ) : ℚ :=
  roundEven (q * unitsPerOne / (2 ^ lastPlace q : ℕ)) * (2 ^ lastPlace q : ℕ) / unitsPerOne

theorem unitsPerOne_pos : 0 < unitsPerOne := by
  unfold unitsPerOne
  exact Nat.cast_pos.mpr (pow_pos two_pos _)

theorem roundEven_intCast (n : ℤ) : roundEven n = n := by
  simp [roundEven]

theorem roundEven_cases (y : ℚ) : roundEven y = ⌊y⌋ ∨ (roundEven y = ⌊y⌋ + 1 ∧ y ≠ ⌊y⌋) := by
  unfold roundEven
  split
  next => exact Or.inl rfl
  next above =>
    have between : y ≠ ⌊y⌋ := by
      intro whole
      apply above
      rw [← whole, sub_self]
      norm_num
    split
    next => exact Or.inr ⟨rfl, between⟩
    next =>
      split
      next => exact Or.inl rfl
      next => exact Or.inr ⟨rfl, between⟩

/-- Rounding does not step over an integer. -/
theorem roundEven_le {y : ℚ} {n : ℤ} (below : y ≤ n) : roundEven y ≤ n := by
  have floor : ⌊y⌋ ≤ n := by exact_mod_cast (Int.floor_le y).trans below
  rcases roundEven_cases y with here | ⟨here, between⟩
  · omega
  · have strict : ⌊y⌋ ≠ n := by
      intro same
      apply between
      apply le_antisymm _ (Int.floor_le y)
      rw [same]
      exact below
    omega

theorem le_roundEven {y : ℚ} {n : ℤ} (above : n ≤ y) : n ≤ roundEven y := by
  have floor : n ≤ ⌊y⌋ := Int.le_floor.mpr above
  rcases roundEven_cases y with here | ⟨here, _⟩
  · omega
  · omega

theorem roundEven_abs {y : ℚ} {n : ℕ} (bound : |y| ≤ n) : |roundEven y| ≤ n := by
  obtain ⟨below, above⟩ := abs_le.mp bound
  have cast : ((-(n : ℤ) : ℤ) : ℚ) ≤ y := by
    push_cast
    exact below
  exact abs_le.mpr ⟨le_roundEven cast, roundEven_le above⟩

theorem lastPlace_bound (q : ℚ) : |q| * unitsPerOne < (2 ^ 53 : ℕ) * (2 ^ lastPlace q : ℕ) := by
  have below : ⌊|q| * unitsPerOne⌋₊ < 2 ^ (53 + lastPlace q) := by
    refine lt_of_lt_of_le Nat.lt_log2_self ?_
    apply Nat.pow_le_pow_right (by decide)
    unfold lastPlace
    omega
  have cast := (Nat.floor_lt (mul_nonneg (abs_nonneg q) unitsPerOne_pos.le)).mp below
  rw [pow_add] at cast
  exact_mod_cast cast

theorem lastPlace_le {q : ℚ} {e : ℕ} (below : |q| * unitsPerOne < (2 ^ 53 : ℕ) * (2 ^ e : ℕ)) :
    lastPlace q ≤ e := by
  have floor : ⌊|q| * unitsPerOne⌋₊ < 2 ^ (53 + e) := by
    apply (Nat.floor_lt (mul_nonneg (abs_nonneg q) unitsPerOne_pos.le)).mpr
    rw [pow_add]
    exact_mod_cast below
  unfold lastPlace
  by_cases zero : ⌊|q| * unitsPerOne⌋₊ = 0
  · rw [zero]
    simp
  · have bits := (Nat.log2_lt zero).mpr floor
    omega

/-- At its last place a value has 53 bits. -/
theorem scaled_bound (q : ℚ) : |q * unitsPerOne / (2 ^ lastPlace q : ℕ)| < (2 ^ 53 : ℕ) := by
  have place : (0 : ℚ) < (2 ^ lastPlace q : ℕ) := Nat.cast_pos.mpr (Nat.two_pow_pos _)
  rw [abs_div, abs_mul, abs_of_pos place, abs_of_pos unitsPerOne_pos, div_lt_iff₀ place]
  exact lastPlace_bound q

theorem representable_nearest (q : ℚ) : Representable (nearest q) := by
  refine ⟨roundEven (q * unitsPerOne / (2 ^ lastPlace q : ℕ)), lastPlace q, ?_, rfl⟩
  exact_mod_cast roundEven_abs (scaled_bound q).le

/-- The bits fit strictly, or are `2^52` one place higher. -/
theorem Representable.strict {q : ℚ} (representable : Representable q) :
    ∃ (m : ℤ) (e : ℕ), |m| < 2 ^ 53 ∧ q = m * (2 ^ e : ℕ) / unitsPerOne := by
  obtain ⟨m, e, bits, here⟩ := representable
  rcases bits.lt_or_eq with strict | carried
  · exact ⟨m, e, strict, here⟩
  · -- `2^53` is twice `2^52`
    rcases (abs_eq (by norm_num)).mp carried with positive | negative
    · refine ⟨2 ^ 52, e + 1, by norm_num, ?_⟩
      rw [here, positive]
      push_cast
      ring
    · refine ⟨-2 ^ 52, e + 1, by norm_num, ?_⟩
      rw [here, negative]
      push_cast
      ring

/-- A representable value is its own rounding. -/
theorem nearest_of_representable {q : ℚ} (representable : Representable q) : nearest q = q := by
  obtain ⟨m, e, bits, here⟩ := representable.strict
  have units : q * unitsPerOne = m * (2 ^ e : ℕ) := by
    rw [here, div_mul_cancel₀ _ unitsPerOne_pos.ne']
  have place : lastPlace q ≤ e := by
    apply lastPlace_le
    have size : |q| * unitsPerOne = |(m : ℚ)| * (2 ^ e : ℕ) := by
      rw [← abs_of_pos unitsPerOne_pos, ← abs_mul, units, abs_mul, Nat.abs_cast]
    rw [size]
    apply mul_lt_mul_of_pos_right _ (Nat.cast_pos.mpr (Nat.two_pow_pos e))
    exact_mod_cast bits
  have positive : ((2 ^ lastPlace q : ℕ) : ℚ) ≠ 0 := Nat.cast_ne_zero.mpr (Nat.two_pow_pos _).ne'
  -- the last place divides the units of the value
  have whole : q * unitsPerOne / (2 ^ lastPlace q : ℕ) =
      ((m * (2 ^ (e - lastPlace q) : ℕ) : ℤ) : ℚ) := by
    rw [units, div_eq_iff positive, Int.cast_mul, Int.cast_natCast, mul_assoc, ← Nat.cast_mul,
      ← pow_add, Nat.sub_add_cancel place]
  unfold nearest
  rw [whole, roundEven_intCast, ← whole, div_mul_cancel₀ _ positive,
    mul_div_cancel_right₀ _ unitsPerOne_pos.ne']

theorem nearest_nonneg {q : ℚ} (nonneg : 0 ≤ q) : 0 ≤ nearest q := by
  have scaled : ((0 : ℤ) : ℚ) ≤ q * unitsPerOne / (2 ^ lastPlace q : ℕ) := by
    rw [Int.cast_zero]
    exact div_nonneg (mul_nonneg nonneg unitsPerOne_pos.le) (Nat.cast_nonneg _)
  have rounded : (0 : ℚ) ≤ roundEven (q * unitsPerOne / (2 ^ lastPlace q : ℕ)) := by
    exact_mod_cast le_roundEven scaled
  exact div_nonneg (mul_nonneg rounded (Nat.cast_nonneg _)) unitsPerOne_pos.le

/-- No integer is closer. -/
theorem roundEven_closest (y : ℚ) (n : ℤ) : |roundEven y - y| ≤ |n - y| := by
  have lower := Int.floor_le y
  have upper := Int.lt_floor_add_one y
  -- `n` is one of the two neighbours, or lies beyond them
  have beyond : y - ⌊y⌋ ≤ |n - y| ∨ ⌊y⌋ + 1 - y ≤ |n - y| := by
    rcases le_or_gt n ⌊y⌋ with below | above
    · left
      have cast : (n : ℚ) ≤ ⌊y⌋ := Int.cast_le.mpr below
      rw [abs_sub_comm]
      exact (sub_le_sub_left cast y).trans (le_abs_self _)
    · right
      have cast : (⌊y⌋ : ℚ) + 1 ≤ n := by exact_mod_cast above
      exact (sub_le_sub_right cast y).trans (le_abs_self _)
  have floor : |((⌊y⌋ : ℤ) : ℚ) - y| = y - ⌊y⌋ := by
    rw [abs_sub_comm, abs_of_nonneg (by linarith)]
  have ceiling : |((⌊y⌋ + 1 : ℤ) : ℚ) - y| = ⌊y⌋ + 1 - y := by
    push_cast
    exact abs_of_nonneg (by linarith)
  unfold roundEven
  split
  next below =>
    rw [floor]
    rcases beyond with near | far <;> linarith
  next atLeast =>
    split
    next above =>
      rw [ceiling]
      rcases beyond with near | far <;> linarith
    next atMost =>
      split
      next =>
        rw [floor]
        rcases beyond with near | far <;> linarith
      next =>
        rw [ceiling]
        rcases beyond with near | far <;> linarith

/-- A half at most is rounded away. -/
theorem roundEven_error (y : ℚ) : |roundEven y - y| ≤ 1 / 2 := by
  have lower := Int.floor_le y
  have upper := Int.lt_floor_add_one y
  rcases le_or_gt (y - ⌊y⌋) (1 / 2) with near | far
  · refine (roundEven_closest y ⌊y⌋).trans ?_
    rwa [abs_sub_comm, abs_of_nonneg (by linarith)]
  · refine (roundEven_closest y (⌊y⌋ + 1)).trans ?_
    push_cast
    rw [abs_of_nonneg (by linarith)]
    linarith

/-- Past the subnormals a value fills its 53 bits. -/
theorem le_scaled {q : ℚ} (normal : 0 < lastPlace q) :
    ((2 ^ 52 : ℕ) : ℚ) * (2 ^ lastPlace q : ℕ) ≤ |q| * unitsPerOne := by
  have bits : 52 + lastPlace q = Nat.log2 ⌊|q| * unitsPerOne⌋₊ := by
    unfold lastPlace at normal ⊢
    omega
  have some : ⌊|q| * unitsPerOne⌋₊ ≠ 0 := by
    intro none
    rw [none] at bits
    simp at bits
  have power := Nat.log2_self_le some
  rw [← bits, pow_add] at power
  have floor := Nat.floor_le (mul_nonneg (abs_nonneg q) unitsPerOne_pos.le)
  have cast : ((2 ^ 52 * 2 ^ lastPlace q : ℕ) : ℚ) ≤ ⌊|q| * unitsPerOne⌋₊ := Nat.cast_le.mpr power
  rw [Nat.cast_mul] at cast
  exact cast.trans floor

/-- No representable value is closer. -/
theorem nearest_closest (q : ℚ) {r : ℚ} (representable : Representable r) :
    |nearest q - q| ≤ |r - q| := by
  have place : (0 : ℚ) < (2 ^ lastPlace q : ℕ) := Nat.cast_pos.mpr (Nat.two_pow_pos _)
  have units := unitsPerOne_pos
  -- everything is measured in steps of the last place
  have step : 0 < (2 ^ lastPlace q : ℕ) / unitsPerOne := div_pos place units
  have value : q = q * unitsPerOne / (2 ^ lastPlace q : ℕ) * ((2 ^ lastPlace q : ℕ) / unitsPerOne) := by
    field_simp
  have rounded : nearest q = roundEven (q * unitsPerOne / (2 ^ lastPlace q : ℕ)) *
      ((2 ^ lastPlace q : ℕ) / unitsPerOne) := mul_div_assoc ..
  have other : r = r * unitsPerOne / (2 ^ lastPlace q : ℕ) * ((2 ^ lastPlace q : ℕ) / unitsPerOne) := by
    field_simp
  generalize steps : q * unitsPerOne / (2 ^ lastPlace q : ℕ) = y at value rounded
  generalize steps' : r * unitsPerOne / (2 ^ lastPlace q : ℕ) = z at other
  have closest : |roundEven y - y| ≤ |z - y| := by
    obtain ⟨m, e, bits, here⟩ := representable.strict
    have size : r * unitsPerOne = m * (2 ^ e : ℕ) := by
      rw [here, div_mul_cancel₀ _ units.ne']
    rcases le_or_gt (lastPlace q) e with coarse | fine
    · -- on the grid of `q`
      have whole : z = (m * (2 ^ (e - lastPlace q) : ℕ) : ℤ) := by
        rw [← steps', size, div_eq_iff place.ne', Int.cast_mul, Int.cast_natCast, mul_assoc,
          ← Nat.cast_mul, ← pow_add, Nat.sub_add_cancel coarse]
      rw [whole]
      exact roundEven_closest y _
    · -- in a lower binade, with `2^52` steps in between
      have far : ((2 ^ 52 : ℕ) : ℚ) ≤ |y| := by
        rw [← steps, abs_div, abs_mul, abs_of_pos units, abs_of_pos place, le_div_iff₀ place]
        exact le_scaled (Nat.zero_lt_of_lt fine)
      have near : |z| ≤ (2 ^ 52 : ℕ) := by
        rw [← steps', abs_div, abs_of_pos place, size, abs_mul, Nat.abs_cast, div_le_iff₀ place]
        have places : 2 ^ 53 * 2 ^ e ≤ 2 ^ 52 * 2 ^ lastPlace q := by
          rw [← pow_add, ← pow_add]
          exact Nat.pow_le_pow_right (by decide) (by omega)
        have bits' : |(m : ℚ)| ≤ (2 ^ 53 : ℕ) := by exact_mod_cast bits.le
        calc |(m : ℚ)| * (2 ^ e : ℕ) ≤ (2 ^ 53 : ℕ) * (2 ^ e : ℕ) :=
              mul_le_mul_of_nonneg_right bits' (Nat.cast_nonneg _)
          _ ≤ (2 ^ 52 : ℕ) * (2 ^ lastPlace q : ℕ) := by exact_mod_cast places
      obtain ⟨above, below⟩ := abs_le.mp near
      rcases le_abs.mp far with positive | negative
      · have middle := roundEven_closest y (2 ^ 52 : ℕ)
        rw [Int.cast_natCast] at middle
        refine middle.trans ?_
        rw [abs_sub_comm, abs_sub_comm z, abs_of_nonneg (by linarith), abs_of_nonneg (by linarith)]
        linarith
      · have middle := roundEven_closest y (-(2 ^ 52 : ℕ) : ℤ)
        rw [Int.cast_neg, Int.cast_natCast] at middle
        refine middle.trans ?_
        rw [abs_of_nonneg (by linarith), abs_of_nonneg (by linarith)]
        linarith
  have error : nearest q - q = (roundEven y - y) * ((2 ^ lastPlace q : ℕ) / unitsPerOne) := by
    rw [sub_mul, ← rounded, ← value]
  have error' : r - q = (z - y) * ((2 ^ lastPlace q : ℕ) / unitsPerOne) := by
    rw [sub_mul, ← other, ← value]
  rw [error, error', abs_mul, abs_mul]
  exact mul_le_mul_of_nonneg_right closest (abs_nonneg _)

/-- Rounding keeps the order. -/
theorem nearest_mono {p q : ℚ} (below : p ≤ q) : nearest p ≤ nearest q := by
  by_contra crossed
  rw [not_le] at crossed
  have left := nearest_closest p (representable_nearest q)
  have right := nearest_closest q (representable_nearest p)
  -- each of two crossed values would be closer to the other's argument
  have above : nearest p + nearest q ≤ 2 * p := by
    rcases abs_cases (nearest p - p) with ⟨size, _⟩ | ⟨size, _⟩ <;>
      rcases abs_cases (nearest q - p) with ⟨size', _⟩ | ⟨size', _⟩ <;>
      rw [size, size'] at left <;> linarith
  have under : 2 * q ≤ nearest p + nearest q := by
    rcases abs_cases (nearest q - q) with ⟨size, _⟩ | ⟨size, _⟩ <;>
      rcases abs_cases (nearest p - q) with ⟨size', _⟩ | ⟨size', _⟩ <;>
      rw [size, size'] at right <;> linarith
  have same : p = q := by linarith
  rw [same] at crossed
  exact lt_irrefl _ crossed

theorem le_nearest {q r : ℚ} (representable : Representable r) (above : r ≤ q) : r ≤ nearest q := by
  rw [← nearest_of_representable representable]
  exact nearest_mono above

theorem nearest_le {q r : ℚ} (representable : Representable r) (below : q ≤ r) : nearest q ≤ r := by
  rw [← nearest_of_representable representable]
  exact nearest_mono below

/-- Nothing positive is below the last place of the format. -/
theorem Representable.least {q : ℚ} (representable : Representable q) (positive : 0 < q) :
    1 / unitsPerOne ≤ q := by
  obtain ⟨m, e, _, here⟩ := representable
  have units := unitsPerOne_pos
  rw [here] at positive ⊢
  have whole : (0 : ℚ) < ((m * (2 ^ e : ℕ) : ℤ) : ℚ) := by
    push_cast
    have numerator := (div_pos_iff_of_pos_right units).mp positive
    exact_mod_cast numerator
  have one : (1 : ℚ) ≤ ((m * (2 ^ e : ℕ) : ℤ) : ℚ) := by
    exact_mod_cast Int.cast_pos.mp whole
  apply div_le_div_of_nonneg_right _ units.le
  exact_mod_cast one

theorem Representable.double {q : ℚ} (representable : Representable q) :
    Representable (q * 2) := by
  obtain ⟨m, e, bits, rfl⟩ := representable
  refine ⟨m, e + 1, bits, ?_⟩
  rw [pow_succ, Nat.cast_mul, Nat.cast_ofNat]
  ring

theorem Representable.neg {q : ℚ} (representable : Representable q) : Representable (-q) := by
  obtain ⟨m, e, bits, here⟩ := representable
  refine ⟨-m, e, by rwa [abs_neg], ?_⟩
  rw [here]
  push_cast
  ring

theorem nearest_abs_le {q r : ℚ} (representable : Representable r) (bound : |q| ≤ r) :
    |nearest q| ≤ r := by
  obtain ⟨below, above⟩ := abs_le.mp bound
  exact abs_le.mpr ⟨le_nearest representable.neg below, nearest_le representable above⟩

/-- What a sum is rounded up by is at most what has been added. -/
theorem nearest_add_le {r x : ℚ} (representable : Representable r) (nonneg : 0 ≤ x) :
    nearest (r + x) ≤ r + 2 * x := by
  have closest := nearest_closest (r + x) representable
  have size : |r - (r + x)| = x := by
    rw [sub_add_cancel_left, abs_neg, abs_of_nonneg nonneg]
  rw [size] at closest
  linarith [(abs_le.mp closest).2]

/-- A value with `k` bits above the last place of the format keeps as many when it is rounded. -/
theorem nearest_relative {q : ℚ} {k : ℕ} (bits : k ≤ 52)
    (large : ((2 ^ k : ℕ) : ℚ) ≤ |q| * unitsPerOne) :
    |nearest q - q| ≤ |q| / (2 * (2 ^ k : ℕ)) := by
  have place : (0 : ℚ) < (2 ^ lastPlace q : ℕ) := Nat.cast_pos.mpr (Nat.two_pow_pos _)
  have power : (0 : ℚ) < (2 ^ k : ℕ) := Nat.cast_pos.mpr (Nat.two_pow_pos k)
  have units := unitsPerOne_pos
  -- q is at least 2 ^ k times its last place
  have least : ((2 ^ k : ℕ) : ℚ) * (2 ^ lastPlace q : ℕ) ≤ |q| * unitsPerOne := by
    rcases Nat.eq_zero_or_pos (lastPlace q) with last | normal
    · rw [last]
      simpa using large
    · refine le_trans ?_ (le_scaled normal)
      apply mul_le_mul_of_nonneg_right _ place.le
      exact Nat.cast_le.mpr (Nat.pow_le_pow_right two_pos bits)
  have error : nearest q - q =
      (roundEven (q * unitsPerOne / (2 ^ lastPlace q : ℕ)) - q * unitsPerOne / (2 ^ lastPlace q : ℕ)) *
        (2 ^ lastPlace q : ℕ) / unitsPerOne := by
    unfold nearest
    field_simp
  rw [error, abs_div, abs_mul, abs_of_pos place, abs_of_pos units, div_le_iff₀ units]
  calc |_| * ((2 ^ lastPlace q : ℕ) : ℚ) ≤ 1 / 2 * (2 ^ lastPlace q : ℕ) :=
        mul_le_mul_of_nonneg_right (roundEven_error _) place.le
    _ = (2 ^ k : ℕ) * (2 ^ lastPlace q : ℕ) / (2 * (2 ^ k : ℕ)) := by field_simp
    _ ≤ |q| * unitsPerOne / (2 * (2 ^ k : ℕ)) := div_le_div_of_nonneg_right least (by positivity)
    _ = |q| / (2 * (2 ^ k : ℕ)) * unitsPerOne := by ring

/-- No value from `2^-e` on loses more than its `k`th bit. -/
theorem nearest_relative_inv {q : ℚ} {e k : ℕ} (bits : k ≤ 52) (places : e + k ≤ 1074)
    (least : ((2 ^ e : ℕ) : ℚ)⁻¹ ≤ q) : |nearest q - q| ≤ q / (2 * (2 ^ k : ℕ)) := by
  have power : (0 : ℚ) < (2 ^ e : ℕ) := Nat.cast_pos.mpr (Nat.two_pow_pos e)
  have positive : 0 < q := (inv_pos.mpr power).trans_le least
  have units : ((2 ^ k : ℕ) : ℚ) * (2 ^ e : ℕ) ≤ unitsPerOne := by
    rw [unitsPerOne, ← Nat.cast_mul, ← pow_add, Nat.add_comm]
    exact Nat.cast_le.mpr (pow_le_pow_right₀ one_le_two places)
  have large : ((2 ^ k : ℕ) : ℚ) ≤ |q| * unitsPerOne := by
    rw [abs_of_pos positive]
    calc ((2 ^ k : ℕ) : ℚ) = ((2 ^ e : ℕ) : ℚ)⁻¹ * ((2 ^ k : ℕ) * (2 ^ e : ℕ)) := by field_simp
      _ ≤ q * unitsPerOne := mul_le_mul least units (by positivity) positive.le
  have error := nearest_relative bits large
  rwa [abs_of_pos positive] at error

/-- An integer of 53 bits is representable, and with up to 1074 of them behind the point. -/
theorem representable_shift {m : ℤ} {k : ℕ} (bits : |m| ≤ 2 ^ 53) (places : k ≤ 1074) :
    Representable (m / 2 ^ k) := by
  refine ⟨m, 1074 - k, bits, ?_⟩
  have units : unitsPerOne = ((2 ^ (1074 - k) : ℕ) : ℚ) * 2 ^ k := by
    rw [unitsPerOne, Nat.cast_pow, Nat.cast_pow, Nat.cast_ofNat, ← pow_add,
      Nat.sub_add_cancel places]
  rw [units, mul_comm ((2 ^ (1074 - k) : ℕ) : ℚ), mul_div_mul_right]
  exact Nat.cast_ne_zero.mpr (pow_pos two_pos _).ne'

theorem representable_intCast {n : ℤ} (bits : |n| ≤ 2 ^ 53) : Representable n := by
  have whole := representable_shift bits (Nat.zero_le 1074)
  rwa [pow_zero, div_one] at whole

/-- A value below `2^32` has at least twenty bits behind the point. -/
theorem nearest_error {q : ℚ} (small : |q| ≤ 2 ^ 32) : |nearest q - q| ≤ 1 / 2 ^ 20 := by
  have lower := Int.floor_le (q * 2 ^ 20)
  have upper := Int.lt_floor_add_one (q * 2 ^ 20)
  obtain ⟨least, most⟩ := abs_le.mp small
  have cut : Representable (⌊q * 2 ^ 20⌋ / 2 ^ 20) := by
    refine representable_shift ?_ (by decide)
    apply abs_le.mpr
    constructor
    · apply Int.le_floor.mpr
      push_cast
      linarith
    · apply Int.le_of_lt_add_one
      apply Int.floor_lt.mpr
      push_cast
      linarith
  have below : (⌊q * 2 ^ 20⌋ : ℚ) / 2 ^ 20 ≤ q := (div_le_iff₀ (by positivity)).mpr lower
  have above : q ≤ (⌊q * 2 ^ 20⌋ + 1) / 2 ^ 20 := (le_div_iff₀ (by positivity)).mpr upper.le
  refine (nearest_closest q cut).trans ?_
  rw [abs_sub_comm, abs_of_nonneg (sub_nonneg.mpr below)]
  rw [add_div] at above
  linarith

theorem representable_two_pow (e : ℕ) : Representable (2 ^ e : ℕ) := by
  refine ⟨1, e + 1074, by decide, ?_⟩
  have units := unitsPerOne_pos.ne'
  have power : ((2 ^ (e + 1074) : ℕ) : ℚ) = (2 ^ e : ℕ) * unitsPerOne := by
    rw [unitsPerOne, ← Nat.cast_mul, ← pow_add]
  rw [power, Int.cast_one, one_mul, mul_div_cancel_right₀ _ units]

/-- Rounding at most doubles what is not below the last place of the format. -/
theorem nearest_le_double {q : ℚ} (size : q = 0 ∨ 1 / unitsPerOne ≤ q) : nearest q ≤ 2 * q := by
  have units := unitsPerOne_pos
  rcases size with zero | large
  · have bits := representable_intCast (show |(0 : ℤ)| ≤ 2 ^ 53 by decide)
    rw [Int.cast_zero] at bits
    rw [zero, nearest_of_representable bits]
    norm_num
  · have positive : 0 < q := lt_of_lt_of_le (by positivity) large
    have error := nearest_relative (q := q) (k := 0) (by decide) (by
      rw [abs_of_pos positive, pow_zero, Nat.cast_one]
      exact (div_le_iff₀ units).mp large)
    rw [abs_of_pos positive, pow_zero, Nat.cast_one] at error
    linarith [(abs_le.mp error).2]

/-! ### Values -/

/-- Where finite values end. -/
def overflow : ℚ := (2 ^ 1024 : ℕ)

inductive Binary64 where
  | nan
  | inf (negative : Bool)
  | finite (value : ℚ) (bits : Representable value) (bounded : |value| < overflow)
deriving DecidableEq

namespace Binary64

/-- To the nearest value, or past the largest one. -/
def round (q : ℚ) : Binary64 :=
  if bounded : |nearest q| < overflow then .finite (nearest q) (representable_nearest q) bounded
  else .inf (decide (q < 0))

def isFinite : Binary64 → Bool
  | .finite .. => true
  | _ => false

/-- The exact value of a finite one, and no other has any. -/
def toRat : Binary64 → ℚ
  | .finite a .. => a
  | _ => 0

def isNan : Binary64 → Bool
  | .nan => true
  | _ => false

instance : Zero Binary64 := ⟨round 0⟩
instance : One Binary64 := ⟨round 1⟩
instance : NatCast Binary64 := ⟨fun n => round n⟩
instance : IntCast Binary64 := ⟨fun n => round n⟩
/-- A decimal literal, or the digits of one that is parsed. -/
instance : OfScientific Binary64 := ⟨fun m s e => round (OfScientific.ofScientific m s e)⟩

def neg : Binary64 → Binary64
  | .nan => .nan
  | .inf negative => .inf !negative
  | .finite a .. => round (-a)

def add : Binary64 → Binary64 → Binary64
  | .nan, _ | _, .nan => .nan
  | .inf a, .inf b => if a = b then .inf a else .nan
  | .inf a, .finite .. => .inf a
  | .finite .., .inf b => .inf b
  | .finite a .., .finite b .. => round (a + b)

instance : Neg Binary64 := ⟨neg⟩
instance : Add Binary64 := ⟨add⟩
instance : Sub Binary64 := ⟨fun a b => a + -b⟩

def mul : Binary64 → Binary64 → Binary64
  | .nan, _ | _, .nan => .nan
  | .inf a, .inf b => .inf (a != b)
  | .inf a, .finite b .. => if b = 0 then .nan else .inf (a != decide (b < 0))
  | .finite a .., .inf b => if a = 0 then .nan else .inf (b != decide (a < 0))
  | .finite a .., .finite b .. => round (a * b)

def div : Binary64 → Binary64 → Binary64
  | .nan, _ | _, .nan => .nan
  | .inf _, .inf _ => .nan
  | .inf a, .finite b .. => .inf (a != decide (b < 0))
  | .finite .., .inf _ => 0
  | .finite a .., .finite b .. =>
    if b = 0 then if a = 0 then .nan else .inf (decide (a < 0))
    else round (a / b)

instance : Mul Binary64 := ⟨mul⟩
instance : Div Binary64 := ⟨div⟩

/-- No comparison with a NaN holds. -/
def le : Binary64 → Binary64 → Bool
  | .nan, _ | _, .nan => false
  | .inf true, _ | _, .inf false => true
  | .inf false, _ | _, .inf true => false
  | .finite a .., .finite b .. => decide (a ≤ b)

instance : LE Binary64 := ⟨fun a b => le a b = true⟩
instance : LT Binary64 := ⟨fun a b => le a b = true ∧ le b a = false⟩
instance : DecidableLE Binary64 := fun a b => inferInstanceAs (Decidable (le a b = true))
instance : DecidableLT Binary64 := fun a b =>
  inferInstanceAs (Decidable (le a b = true ∧ le b a = false))

/-- `f64::max`: the other operand where one is a NaN. -/
instance : Max Binary64 :=
  ⟨fun a b => if a.isNan then b else if b.isNan then a else if a ≤ b then b else a⟩

/-- `f64::min`: the other operand where one is a NaN. -/
instance : Min Binary64 :=
  ⟨fun a b => if a.isNan then b else if b.isNan then a else if a ≤ b then a else b⟩

/-- `f64::clamp`, which a NaN passes. -/
def clamp (x least most : Binary64) : Binary64 :=
  let x := if x < least then least else x
  if most < x then most else x

def floor : Binary64 → Binary64
  | .finite a .. => round ⌊a⌋
  | x => x

/-- The root of a NaN or of a negative value is a NaN. -/
def sqrt : Binary64 → Binary64
  | .nan | .inf true => .nan
  | .inf false => .inf false
  | .finite a .. =>
    if a < 0 then .nan
    else
      let place := Nat.log2 (Nat.sqrt ⌊a * unitsPerOne * unitsPerOne⌋₊) - 52
      let scaled := a * unitsPerOne * unitsPerOne / (2 ^ place * 2 ^ place : ℕ)
      let root := Nat.sqrt ⌊scaled⌋₊
      -- the square of a half lies between two values, so no root is a tie
      let rounded : ℚ := if scaled < (root + 1 / 2) * (root + 1 / 2) then root else root + 1
      round (rounded * (2 ^ place : ℕ) / unitsPerOne)

/-- `as` into the integers from `least` to `most`: towards zero, saturating, a NaN to zero. -/
def toInt (least most : ℤ) : Binary64 → ℤ
  | .nan => 0
  | .inf true => least
  | .inf false => most
  | .finite a .. => max least (min most (if 0 ≤ a then ⌊a⌋ else ⌈a⌉))

def toI32 : Binary64 → ℤ := toInt (-2 ^ 31) (2 ^ 31 - 1)
def toI64 : Binary64 → ℤ := toInt (-2 ^ 63) (2 ^ 63 - 1)
def toU128 (x : Binary64) : ℕ := (toInt 0 (2 ^ 128 - 1) x).toNat

/-! ### Finite values -/

/-- The value of a finite float. -/
def Reads (x : Binary64) (a : ℚ) : Prop := ∃ bits bounded, x = .finite a bits bounded

section Reads

variable {x y : Binary64} {a b : ℚ}

theorem Reads.representable (reads : Reads x a) : Representable a := by
  obtain ⟨bits, _, _⟩ := reads
  exact bits

theorem Reads.bounded (reads : Reads x a) : |a| < overflow := by
  obtain ⟨_, bounded, _⟩ := reads
  exact bounded

theorem exists_reads (finite : x.isFinite = true) : ∃ a, Reads x a := by
  cases x with
  | finite a bits bounded => exact ⟨a, bits, bounded, rfl⟩
  | nan | inf => cases finite

theorem Reads.unique (reads : Reads x a) (reads' : Reads x b) : a = b := by
  obtain ⟨_, _, here⟩ := reads
  obtain ⟨_, _, here'⟩ := reads'
  exact (finite.inj (here.symm.trans here'))

theorem reads_round {q : ℚ} (bounded : |nearest q| < overflow) : Reads (round q) (nearest q) :=
  ⟨representable_nearest q, bounded, dif_pos bounded⟩

/-- Below a value that is no overflow nothing overflows. -/
theorem reads_round_of_le {q r : ℚ} (representable : Representable r) (bound : |q| ≤ r)
    (fits : r < overflow) : Reads (round q) (nearest q) :=
  reads_round ((nearest_abs_le representable bound).trans_lt fits)

theorem reads_round_self {q : ℚ} (representable : Representable q) (bounded : |q| < overflow) :
    Reads (round q) q := by
  have same := nearest_of_representable representable
  have reads := reads_round (q := q) (by rwa [same])
  rwa [same] at reads

theorem two_pow_53_lt : ((2 ^ 53 : ℤ) : ℚ) < overflow := by
  rw [Int.cast_pow, Int.cast_ofNat, overflow, Nat.cast_pow, Nat.cast_ofNat]
  exact pow_lt_pow_right₀ one_lt_two (by decide)

/-- Up to `2^53` a value is rounded, and no more. -/
theorem reads_round_small {q : ℚ} (small : |q| ≤ 2 ^ 53) : Reads (round q) (nearest q) := by
  refine reads_round_of_le (representable_intCast (n := 2 ^ 53) (by decide)) ?_ two_pow_53_lt
  exact_mod_cast small

theorem reads_intCast {n : ℤ} (bits : |n| ≤ 2 ^ 53) : Reads (n : Binary64) n := by
  have small : |(n : ℚ)| ≤ ((2 ^ 53 : ℤ) : ℚ) := by exact_mod_cast bits
  exact reads_round_self (representable_intCast bits) (small.trans_lt two_pow_53_lt)

theorem reads_natCast {n : ℕ} (bits : n ≤ 2 ^ 53) : Reads (n : Binary64) n := by
  have bits' : |(n : ℤ)| ≤ 2 ^ 53 := by
    rw [Nat.abs_cast]
    exact_mod_cast bits
  exact reads_intCast bits'

theorem reads_zero : Reads (0 : Binary64) 0 := reads_intCast (show |(0 : ℤ)| ≤ 2 ^ 53 by decide)

theorem reads_one : Reads (1 : Binary64) 1 := by
  have reads := reads_intCast (show |(1 : ℤ)| ≤ 2 ^ 53 by decide)
  rwa [Int.cast_one] at reads

theorem Reads.add (left : Reads x a) (right : Reads y b) : x + y = round (a + b) := by
  obtain ⟨_, _, here⟩ := left
  obtain ⟨_, _, here'⟩ := right
  rw [here, here']
  rfl

theorem Reads.mul (left : Reads x a) (right : Reads y b) : x * y = round (a * b) := by
  obtain ⟨_, _, here⟩ := left
  obtain ⟨_, _, here'⟩ := right
  rw [here, here']
  rfl

theorem Reads.div (left : Reads x a) (right : Reads y b) (nonzero : b ≠ 0) :
    x / y = round (a / b) := by
  obtain ⟨_, _, here⟩ := left
  obtain ⟨_, _, here'⟩ := right
  rw [here, here']
  exact if_neg nonzero

theorem Reads.inf_div (reads : Reads x a) (negative : Bool) :
    .inf negative / x = .inf (negative != decide (a < 0)) := by
  obtain ⟨_, _, here⟩ := reads
  rw [here]
  rfl

theorem Reads.eq_of_eq (left : Reads x a) (right : Reads y a) : x = y := by
  obtain ⟨_, _, here⟩ := left
  obtain ⟨_, _, here'⟩ := right
  rw [here, here']

theorem Reads.floor (reads : Reads x a) : x.floor = round ⌊a⌋ := by
  obtain ⟨_, _, here⟩ := reads
  rw [here]
  rfl

theorem Reads.le_iff (left : Reads x a) (right : Reads y b) : x ≤ y ↔ a ≤ b := by
  obtain ⟨_, _, here⟩ := left
  obtain ⟨_, _, here'⟩ := right
  rw [here, here']
  exact decide_eq_true_iff

theorem Reads.lt_iff (left : Reads x a) (right : Reads y b) : x < y ↔ a < b := by
  have below : x < y ↔ x ≤ y ∧ ¬y ≤ x := and_congr_right fun _ => Bool.eq_false_iff
  rw [below, left.le_iff right, right.le_iff left, lt_iff_le_not_ge]

theorem Reads.lt_inf (reads : Reads x a) : x < .inf false := by
  obtain ⟨_, _, here⟩ := reads
  rw [here]
  exact ⟨rfl, rfl⟩

theorem Reads.inf_ne (reads : Reads x a) (negative : Bool) : .inf negative ≠ x := by
  obtain ⟨_, _, here⟩ := reads
  rw [here]
  exact Binary64.noConfusion

theorem round_ne_zero {q : ℚ} (positive : 0 < nearest q) : round q ≠ 0 := by
  unfold round
  split
  next bounded =>
    intro zero
    exact positive.ne' (Reads.unique ⟨_, bounded, zero.symm⟩ reads_zero)
  next => exact reads_zero.inf_ne _

/-- The larger one of a float and a finite one. -/
theorem Reads.max_cases (reads : Reads y b) :
    max x y = .inf false ∨ ∃ a, Reads (max x y) a ∧ b ≤ a := by
  obtain ⟨bits, bounded, here⟩ := reads
  rw [here]
  cases x with
  | nan => exact Or.inr ⟨b, ⟨bits, bounded, rfl⟩, le_rfl⟩
  | inf negative =>
    cases negative with
    | true => exact Or.inr ⟨b, ⟨bits, bounded, rfl⟩, le_rfl⟩
    | false => exact Or.inl rfl
  | finite a bits' bounded' =>
    have chosen : max (finite a bits' bounded') (finite b bits bounded) =
        if a ≤ b then finite b bits bounded else finite a bits' bounded' := by
      by_cases below : a ≤ b
      · rw [if_pos below]
        exact if_pos (decide_eq_true below)
      · rw [if_neg below]
        exact if_neg fun le => below (of_decide_eq_true le)
    rw [chosen]
    split
    next => exact Or.inr ⟨b, ⟨bits, bounded, rfl⟩, le_rfl⟩
    next above => exact Or.inr ⟨a, ⟨bits', bounded', rfl⟩, (not_le.mp above).le⟩

theorem not_le_nan : ¬x ≤ .nan := by
  intro below
  cases x <;> exact absurd below Bool.false_ne_true

theorem Reads.not_le_inf (reads : Reads x a) : ¬x ≤ .inf true := by
  obtain ⟨_, _, here⟩ := reads
  rw [here]
  exact Bool.false_ne_true

theorem Reads.toInt (reads : Reads x a) (least most : ℤ) :
    x.toInt least most = max least (min most (if 0 ≤ a then ⌊a⌋ else ⌈a⌉)) := by
  obtain ⟨_, _, here⟩ := reads
  rw [here]
  rfl

end Reads

/-! ### Zero -/

protected theorem zero_add (x : Binary64) : 0 + x = x := by
  obtain ⟨_, _, zero⟩ := reads_zero
  rw [zero]
  cases x with
  | nan => rfl
  | inf negative => rfl
  | finite v bits bounded =>
    have reads := reads_round_self bits bounded
    refine Eq.trans (congrArg round (zero_add v)) ?_
    exact reads.eq_of_eq ⟨bits, bounded, rfl⟩

protected theorem add_zero (x : Binary64) : x + 0 = x := by
  obtain ⟨_, _, zero⟩ := reads_zero
  rw [zero]
  cases x with
  | nan => rfl
  | inf negative => rfl
  | finite v bits bounded =>
    have reads := reads_round_self bits bounded
    refine Eq.trans (congrArg round (add_zero v)) ?_
    exact reads.eq_of_eq ⟨bits, bounded, rfl⟩

theorem Reads.zero_mul {x : Binary64} {a : ℚ} (reads : Reads x a) : 0 * x = 0 := by
  rw [reads_zero.mul reads, MulZeroClass.zero_mul]
  rfl

theorem Reads.zero_div {x : Binary64} {a : ℚ} (reads : Reads x a) (nonzero : a ≠ 0) :
    0 / x = 0 := by
  rw [reads_zero.div reads nonzero, div_eq_mul_inv, MulZeroClass.zero_mul]
  rfl

theorem Reads.mul_one {x : Binary64} {a : ℚ} (reads : Reads x a) : x * 1 = x := by
  rw [reads.mul reads_one, MulOneClass.mul_one]
  exact (reads_round_self reads.representable reads.bounded).eq_of_eq reads

theorem Reads.div_one {x : Binary64} {a : ℚ} (reads : Reads x a) : x / 1 = x := by
  rw [reads.div reads_one one_ne_zero, div_eq_mul_inv, inv_one, MulOneClass.mul_one]
  exact (reads_round_self reads.representable reads.bounded).eq_of_eq reads

/-! ### Sizes -/

/-- A finite float of at most `2^e`. -/
def AtMost (e : ℕ) (x : Binary64) : Prop := ∃ a, Reads x a ∧ |a| ≤ (2 ^ e : ℕ)

theorem round_atMost {q : ℚ} {e : ℕ} (bound : |q| ≤ (2 ^ e : ℕ)) (fits : e < 1024) :
    Reads (round q) (nearest q) ∧ |nearest q| ≤ (2 ^ e : ℕ) := by
  have bits := representable_two_pow e
  refine ⟨reads_round_of_le bits bound ?_, nearest_abs_le bits bound⟩
  rw [overflow, Nat.cast_pow, Nat.cast_pow, Nat.cast_ofNat]
  exact pow_lt_pow_right₀ one_lt_two fits

/-- As an equation of functions, since the kernel computes an applied `round`. -/
theorem natCast_eq_round : (Nat.cast : ℕ → Binary64) = fun n : ℕ => round n := rfl

theorem natCast_atMost {n e : ℕ} (bound : n ≤ 2 ^ e) (fits : e < 1024) :
    Reads (n : Binary64) (nearest n) ∧ |nearest n| ≤ (2 ^ e : ℕ) := by
  have size : |(n : ℚ)| ≤ (2 ^ e : ℕ) := by
    rw [Nat.abs_cast]
    exact Nat.cast_le.mpr bound
  rw [natCast_eq_round]
  exact round_atMost size fits

section AtMost

variable {x y : Binary64} {d e : ℕ}

theorem AtMost.add (left : AtMost e x) (right : AtMost e y) (fits : e + 1 < 1024) :
    AtMost (e + 1) (x + y) := by
  obtain ⟨a, readsX, boundX⟩ := left
  obtain ⟨b, readsY, boundY⟩ := right
  rw [readsX.add readsY]
  refine ⟨_, round_atMost ?_ fits⟩
  have sum := abs_add_le a b
  rw [pow_succ, Nat.cast_mul, Nat.cast_ofNat]
  linarith

theorem AtMost.mul (left : AtMost d x) (right : AtMost e y) (fits : d + e < 1024) :
    AtMost (d + e) (x * y) := by
  obtain ⟨a, readsX, boundX⟩ := left
  obtain ⟨b, readsY, boundY⟩ := right
  rw [readsX.mul readsY]
  refine ⟨_, round_atMost ?_ fits⟩
  rw [abs_mul, pow_add, Nat.cast_mul]
  exact mul_le_mul boundX boundY (abs_nonneg b) (Nat.cast_nonneg _)

/-- A divisor of at least one makes nothing larger. -/
theorem AtMost.div {b : ℚ} (left : AtMost e x) (right : Reads y b) (large : 1 ≤ b)
    (fits : e < 1024) : AtMost e (x / y) := by
  obtain ⟨a, readsX, boundX⟩ := left
  rw [readsX.div right (one_pos.trans_le large).ne']
  refine ⟨_, round_atMost ?_ fits⟩
  rw [abs_div, abs_of_pos (one_pos.trans_le large)]
  exact (div_le_self (abs_nonneg a) large).trans boundX

end AtMost

theorem toInt_bounds {least most : ℤ} (x : Binary64) (lower : least ≤ 0) (upper : 0 ≤ most) :
    least ≤ x.toInt least most ∧ x.toInt least most ≤ most := by
  unfold toInt
  split <;> omega

end Binary64

end Machine
