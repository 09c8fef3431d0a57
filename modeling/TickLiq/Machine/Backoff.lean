import Mathlib.Algebra.Order.Ring.Nat
import TickLiq.Machine.Run

/-!
# Backoff and pace

A delay that doubles from a base up to a cap, and the pace that waiting forces on a run. The
pace is a potential argument: `due` is a time, kept with the state, that never goes back
except where an attempt is pardoned. Every attempt moves it on by `gap`, and no attempt is
made while it lies more than `slack` ahead of the clock.
-/
namespace Machine

structure Backoff where
  base : ℕ
  cap : ℕ
  base_le_cap : base ≤ cap

namespace Backoff

variable (b : Backoff)

/-- `(delay * 2).min(cap)` -/
def grow (delay : ℕ) : ℕ := min (delay * 2) b.cap

/-- The delay after so many failures in a row. -/
def delay (failures : ℕ) : ℕ := min (b.base * 2 ^ failures) b.cap

@[simp] theorem delay_zero : b.delay 0 = b.base := by
  rw [delay, pow_zero, mul_one, min_eq_left b.base_le_cap]

theorem grow_delay (failures : ℕ) : b.grow (b.delay failures) = b.delay (failures + 1) := by
  simp only [grow, delay, pow_succ, ← Nat.mul_assoc]
  omega

theorem base_le_delay (failures : ℕ) : b.base ≤ b.delay failures :=
  le_min (Nat.le_mul_of_pos_right b.base (Nat.two_pow_pos failures)) b.base_le_cap

theorem delay_le_cap (failures : ℕ) : b.delay failures ≤ b.cap := min_le_right _ _

/-- From the failures on that double past it, the delay is the cap. -/
theorem delay_eq_cap {failures : ℕ} (reached : b.cap ≤ b.base * 2 ^ failures) :
    b.delay failures = b.cap := min_eq_right reached

end Backoff

/-! ### The pace of a run -/

section Pace

variable {σ ε : Type*} (step : σ → ε → Option σ)

/-- One step of a paced system. -/
structure Paced (valid : σ → Prop) (now due : σ → ℕ) (attempt pardon : σ → ε → Bool)
    (gap slack : ℕ) : Prop where
  keeps : ∀ s e t, valid s → step s e = some t → valid t
  clock : ∀ s e t, valid s → step s e = some t → now s ≤ now t
  moves : ∀ s e t, valid s → step s e = some t →
    due s + (if attempt s e then gap else 0) ≤ due t + if pardon s e then gap else 0
  ready : ∀ s e t, valid s → step s e = some t → attempt s e = true → due s ≤ now s + slack

variable {step} {valid : σ → Prop} {now due : σ → ℕ} {attempt pardon : σ → ε → Bool}
  {gap slack : ℕ}

/-- The attempts of a run, less the pardoned ones, fit the time it took. -/
theorem Paced.attempts_le (paced : Paced step valid now due attempt pardon gap slack) {s t : σ}
    {es : List ε} (played : run step s es = some t) (initial : valid s)
    (start : due s ≤ now s + slack) :
    due s + gap * tally step attempt s es ≤
      now t + slack + gap * (tally step pardon s es + 1) := by
  -- the potential of the last state, and the clock at the last attempt
  have history : valid t ∧
      due s + gap * tally step attempt s es ≤ due t + gap * tally step pardon s es ∧
      due s + gap * tally step attempt s es ≤
        now t + slack + gap * (tally step pardon s es + 1) := by
    refine run_history step s (fun es t => valid t ∧
      due s + gap * tally step attempt s es ≤ due t + gap * tally step pardon s es ∧
      due s + gap * tally step attempt s es ≤
        now t + slack + gap * (tally step pardon s es + 1)) ?_ ?_ es t played
    · refine ⟨initial, ?_, ?_⟩
      · simp
      · simp only [tally_nil]
        omega
    · intro es u e v before ⟨here, potential, bound⟩ moved
      have clock := paced.clock u e v here moved
      have moves := paced.moves u e v here moved
      rw [tally_concat step attempt e before, tally_concat step pardon e before]
      refine ⟨paced.keeps u e v here moved, ?_, ?_⟩
      · cases tried : attempt u e <;> cases pardoned : pardon u e <;>
          simp only [tried, pardoned, if_true, if_false, Bool.false_eq_true, Nat.mul_add,
            Nat.mul_one, Nat.add_zero] at moves ⊢ <;> omega
      · have ready := paced.ready u e v here moved
        cases tried : attempt u e <;> cases pardoned : pardon u e <;>
          simp only [tried, if_true, if_false, Bool.false_eq_true, Nat.mul_add,
            Nat.mul_one, Nat.add_zero, true_implies] at ready bound ⊢ <;> omega
  exact history.2.2

end Pace

end Machine
