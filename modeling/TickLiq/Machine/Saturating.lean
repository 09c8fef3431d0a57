import TickLiq.Machine.Wrapping

/-!
# Counters that saturate

A saturating counter stops at its top. Its readings never fall, so read by wrapping
differences they give back the last one. Where the counter starts anew the difference
from the old run to the new one is the only one that may wrap.
-/
namespace Machine

/-- The readings of a counter at `b` after each gain, stopped at `top`. -/
def saturate (top : ℕ) : ℕ → List ℕ → List ℕ
  | _, [] => []
  | b, gain :: gains => min (b + gain) top :: saturate top (min (b + gain) top) gains

theorem wrappingSub_eq {m a b : ℕ} (left : a < m) (right : b < m) :
    wrappingSub m a b = if b ≤ a then a - b else m + a - b := by
  unfold wrappingSub
  split
  next below =>
    have difference : a + m - b = a - b + m := by omega
    rw [difference, Nat.add_mod_right, Nat.mod_eq_of_lt (by omega)]
  next above => rw [Nat.mod_eq_of_lt (by omega), Nat.add_comm a]

/-- What a counter has gained after a list of readings is its last reading. -/
theorem steppedGrowth_saturate {m top b : ℕ} (gains : List ℕ) (fits : top < m) (within : b ≤ top) :
    b + steppedGrowth m b (saturate top b gains) = min (b + gains.sum) top := by
  induction gains generalizing b with
  | nil =>
    rw [saturate, steppedGrowth, List.sum_nil]
    omega
  | cons gain gains ih =>
    have step : wrappingSub m (min (b + gain) top) b = min (b + gain) top - b := by
      rw [wrappingSub_eq (by omega) (by omega), if_pos (by omega)]
    have rest := ih (b := min (b + gain) top) (by omega)
    rw [saturate, steppedGrowth, step, List.sum_cons]
    omega

theorem saturate_append {top b : ℕ} (gains more : List ℕ) (within : b ≤ top) :
    saturate top b (gains ++ more) =
      saturate top b gains ++ saturate top (min (b + gains.sum) top) more := by
  induction gains generalizing b with
  | nil =>
    rw [List.sum_nil, Nat.add_zero, Nat.min_eq_left within]
    rfl
  | cons gain gains ih =>
    have carried : min (min (b + gain) top + gains.sum) top = min (b + (gain + gains.sum)) top := by
      omega
    rw [List.cons_append, saturate, saturate, ih (Nat.min_le_right ..), carried, List.sum_cons]
    rfl

theorem saturate_last {top b : ℕ} (gains : List ℕ) (within : b ≤ top) :
    (b :: saturate top b gains).getLast (List.cons_ne_nil b _) = min (b + gains.sum) top := by
  induction gains generalizing b with
  | nil =>
    rw [List.sum_nil]
    exact (Nat.min_eq_left within).symm
  | cons gain gains ih =>
    have rest := ih (b := min (b + gain) top) (by omega)
    rw [saturate, List.getLast_cons (List.cons_ne_nil _ _), rest, List.sum_cons]
    omega

theorem steppedGrowth_append {m b : ℕ} (readings more : List ℕ) :
    steppedGrowth m b (readings ++ more) = steppedGrowth m b readings +
      steppedGrowth m ((b :: readings).getLast (List.cons_ne_nil b readings)) more := by
  induction readings generalizing b with
  | nil => rw [List.nil_append, steppedGrowth, Nat.zero_add, List.getLast_singleton]
  | cons reading readings ih =>
    rw [List.cons_append, steppedGrowth, steppedGrowth, ih,
      List.getLast_cons (List.cons_ne_nil reading readings), Nat.add_assoc]

/-- A counter that starts anew at a reading of `next` counts its second run alone where that
reading is not below the end of the first run, and one more modulus otherwise. -/
theorem steppedGrowth_restart {m top next : ℕ} (gains more : List ℕ) (fits : top < m)
    (below : next < m) :
    steppedGrowth m 0 (saturate top 0 gains ++ next :: more) =
      (if min gains.sum top ≤ next then 0 else m) + (next + steppedGrowth m next more) := by
  have first := steppedGrowth_saturate gains fits (Nat.zero_le top)
  rw [Nat.zero_add, Nat.zero_add] at first
  rw [steppedGrowth_append, saturate_last gains (Nat.zero_le top), first, steppedGrowth,
    Nat.zero_add, wrappingSub_eq below (by omega)]
  split <;> omega

end Machine
