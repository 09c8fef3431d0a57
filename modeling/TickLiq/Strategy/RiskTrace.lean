import Mathlib.Data.Nat.Find
import Mathlib.Algebra.Field.Rat
import Mathlib.Algebra.Order.Ring.Rat
import TickLiq.Machine.Run
import TickLiq.Strategy.RiskMonitor

/-!
# Traces of `evaluate`

A sequence of calls on one monitor. Until the first breach of the drawdown limit
the peak is the running maximum and the IL check drives the pause flag; from the
first breach on the state is frozen. `FirstBreach` speaks of the snapshots only,
so it locates the halting call before anything is evaluated.
-/
namespace TickLiq.RiskMonitor

open Machine (after after_succ)

variable {K : Type*} [Field K] [LinearOrder K]

/-- The arguments of one `evaluate` call. -/
structure RiskCall (K : Type*) where
  snap : PnlSnapshot K
  driftMarginRatio : Option K
  now : Timestamp

/-- The monitor after `c`, with the action returned. -/
def call (rm : RiskMonitor K) (c : RiskCall K) : RiskMonitor K × RiskAction K :=
  rm.evaluate c.snap c.driftMarginRatio c.now

/-- The monitor after the first `n` calls. -/
def monitorAfter (rm : RiskMonitor K) (calls : List (RiskCall K)) (n : ℕ) : RiskMonitor K :=
  after (fun rm c => (rm.call c).1) rm calls n

/-- The action returned by call `i`. -/
def actionAt (rm : RiskMonitor K) (calls : List (RiskCall K)) (i : ℕ) (inside : i < calls.length) :
    RiskAction K :=
  ((monitorAfter rm calls i).call calls[i]).2

/-- The largest of `peak` and the first `n` net P&L values. -/
def highWater (peak : K) (calls : List (RiskCall K)) (n : ℕ) : K :=
  after (fun peak c => max peak c.snap.netPnl) peak calls n

/-- The snapshot of call `i` breaches the drawdown limit at the running maximum. -/
def BreachAt (rm : RiskMonitor K) (calls : List (RiskCall K)) (i : ℕ) : Prop :=
  ∃ inside : i < calls.length,
    Breaches rm.maxDrawdownPct (highWater rm.state.peakPnl calls (i + 1)) calls[i].snap.netPnl

def FirstBreach (rm : RiskMonitor K) (calls : List (RiskCall K)) (h : ℕ) : Prop :=
  BreachAt rm calls h ∧ ∀ i < h, ¬ BreachAt rm calls i

theorem monitorAfter_succ (rm : RiskMonitor K) (calls : List (RiskCall K)) (n : ℕ)
    (inside : n < calls.length) :
    monitorAfter rm calls (n + 1) = ((monitorAfter rm calls n).call calls[n]).1 :=
  after_succ _ rm calls n inside

omit [Field K] in
theorem highWater_succ (peak : K) (calls : List (RiskCall K)) (n : ℕ) (inside : n < calls.length) :
    highWater peak calls (n + 1) = max (highWater peak calls n) calls[n].snap.netPnl :=
  after_succ _ peak calls n inside

/-! ### Limits and operator pause -/

theorem monitorAfter_constants (rm : RiskMonitor K) (calls : List (RiskCall K)) (n : ℕ) :
    (monitorAfter rm calls n).maxDrawdownPct = rm.maxDrawdownPct ∧
    (monitorAfter rm calls n).maxIlPct = rm.maxIlPct ∧
    (monitorAfter rm calls n).state.operatorPause = rm.state.operatorPause := by
  apply Machine.after_invariant (fun (rm : RiskMonitor K) (c : RiskCall K) => (rm.call c).1)
    (fun later : RiskMonitor K => later.maxDrawdownPct = rm.maxDrawdownPct ∧
      later.maxIlPct = rm.maxIlPct ∧ later.state.operatorPause = rm.state.operatorPause)
  · intro later c same
    simpa only [call, evaluate_maxDrawdownPct, evaluate_maxIlPct, evaluate_operatorPause] using same
  · exact ⟨rfl, rfl, rfl⟩

theorem monitorAfter_driftMinMarginRatio (rm : RiskMonitor K) (calls : List (RiskCall K)) (n : ℕ) :
    (monitorAfter rm calls n).driftMinMarginRatio = rm.driftMinMarginRatio := by
  apply Machine.after_invariant (fun (rm : RiskMonitor K) (c : RiskCall K) => (rm.call c).1)
    (fun later : RiskMonitor K => later.driftMinMarginRatio = rm.driftMinMarginRatio)
  · intro later c same
    exact (evaluate_fields later c.snap c.driftMarginRatio c.now).2.2.1.trans same
  · rfl

/-! ### Before the first breach -/

/-- Without a breach so far the monitor is active and its peak is the running maximum. -/
theorem active_before_breach (rm : RiskMonitor K) (calls : List (RiskCall K))
    (active : rm.state.haltFlag = false) (n : ℕ) (inside : n ≤ calls.length)
    (quiet : ∀ i < n, ¬ BreachAt rm calls i) :
    (monitorAfter rm calls n).state.haltFlag = false ∧
      (monitorAfter rm calls n).state.peakPnl = highWater rm.state.peakPnl calls n := by
  induction n with
  | zero => exact ⟨active, rfl⟩
  | succ n ih =>
    have bound : n < calls.length := inside
    obtain ⟨alive, peak⟩ := ih bound.le fun i earlier => quiet i (by omega)
    have within := quiet n (by omega)
    simp only [BreachAt, bound, exists_true_left, highWater_succ _ _ _ bound] at within
    rw [monitorAfter_succ rm calls n bound, highWater_succ _ _ _ bound, call]
    constructor
    · rw [evaluate_haltFlag, alive, peak, (monitorAfter_constants rm calls n).1]
      simpa using within
    · rw [evaluate_peakPnl _ _ _ _ alive, peak]

/-- A call without a breach so far, itself included. -/
theorem call_before_breach (rm : RiskMonitor K) (calls : List (RiskCall K))
    (active : rm.state.haltFlag = false) (i : ℕ) (inside : i < calls.length)
    (quiet : ∀ j ≤ i, ¬ BreachAt rm calls j) :
    (monitorAfter rm calls (i + 1)).state.pauseFlag =
        pauseAfter rm.maxIlPct (ilPct calls[i].snap) (monitorAfter rm calls i).state.pauseFlag ∧
      actionAt rm calls i inside =
        (ilAction rm.maxIlPct (ilPct calls[i].snap)
          (monitorAfter rm calls i).state.pauseFlag).getD
            ((monitorAfter rm calls i).checkMargin calls[i].driftMarginRatio) := by
  obtain ⟨alive, peak⟩ := active_before_breach rm calls active i inside.le
    fun j earlier => quiet j (by omega)
  obtain ⟨sameDd, sameIl, -⟩ := monitorAfter_constants rm calls i
  have within := quiet i le_rfl
  simp only [BreachAt, inside, exists_true_left, highWater_succ _ _ _ inside] at within
  obtain ⟨dd, result⟩ := evaluate_within (monitorAfter rm calls i) calls[i].snap
    calls[i].driftMarginRatio calls[i].now alive (by rwa [sameDd, peak])
  constructor
  · rw [monitorAfter_succ rm calls i inside, call, result]
    simp only [sameIl]
  · rw [actionAt, call, result]
    simp only [sameIl]

/-! ### At the first breach and after it -/

theorem call_at_breach (rm : RiskMonitor K) (calls : List (RiskCall K))
    (active : rm.state.haltFlag = false) (h : ℕ) (first : FirstBreach rm calls h)
    (inside : h < calls.length) :
    (monitorAfter rm calls h).call calls[h] =
      ({ monitorAfter rm calls h with state := { (monitorAfter rm calls h).state with
          peakPnl := highWater rm.state.peakPnl calls (h + 1)
          currentDrawdownPct :=
            drawdownPct (highWater rm.state.peakPnl calls (h + 1)) calls[h].snap.netPnl
          haltFlag := true
          updatedAt := calls[h].now } },
        .haltAll (drawdownPct (highWater rm.state.peakPnl calls (h + 1)) calls[h].snap.netPnl)) := by
  obtain ⟨⟨_, breach⟩, earlier⟩ := first
  obtain ⟨alive, peak⟩ := active_before_breach rm calls active h inside.le earlier
  rw [highWater_succ _ _ _ inside] at breach ⊢
  rw [call, evaluate_breach _ _ _ _ alive (by rwa [(monitorAfter_constants rm calls h).1, peak]),
    peak]

/-- The parts of the state that a halted monitor keeps. -/
def Frozen (st : RiskState K) (rm : RiskMonitor K) : Prop :=
  rm.state.haltFlag = true ∧ rm.state.peakPnl = st.peakPnl ∧ rm.state.pauseFlag = st.pauseFlag ∧
    rm.state.currentDrawdownPct = st.currentDrawdownPct

theorem frozen_call (st : RiskState K) (rm : RiskMonitor K) (c : RiskCall K)
    (frozen : Frozen st rm) : Frozen st (rm.call c).1 := by
  rw [call, evaluate_halted _ _ _ _ frozen.1]
  exact frozen

/-- From the call after the first breach on, the state is frozen. -/
theorem frozen_after_breach (rm : RiskMonitor K) (calls : List (RiskCall K))
    (active : rm.state.haltFlag = false) (h : ℕ) (first : FirstBreach rm calls h) (n : ℕ)
    (later : h < n) (inside : n ≤ calls.length) :
    Frozen (monitorAfter rm calls (h + 1)).state (monitorAfter rm calls n) := by
  induction n, later using Nat.le_induction with
  -- the halting call itself leaves the halt set
  | base =>
    have bound : h < calls.length := inside
    refine ⟨?_, rfl, rfl, rfl⟩
    rw [monitorAfter_succ rm calls h bound, call_at_breach rm calls active h first bound]
  | succ n _ ih =>
    have bound : n < calls.length := inside
    rw [monitorAfter_succ rm calls n bound]
    exact frozen_call _ _ _ (ih bound.le)

theorem exists_firstBreach (rm : RiskMonitor K) (calls : List (RiskCall K)) (i : ℕ)
    (breach : BreachAt rm calls i) : ∃ h ≤ i, FirstBreach rm calls h := by
  classical
  have some : ∃ h, BreachAt rm calls h := ⟨i, breach⟩
  exact ⟨Nat.find some, Nat.find_min' some breach, Nat.find_spec some,
    fun j before => Nat.find_min some before⟩

theorem halted_iff_breach (rm : RiskMonitor K) (calls : List (RiskCall K))
    (active : rm.state.haltFlag = false) (n : ℕ) (inside : n ≤ calls.length) :
    (monitorAfter rm calls n).state.haltFlag = true ↔ ∃ h < n, FirstBreach rm calls h := by
  constructor
  · intro halted
    by_contra none
    -- if it is not found among the first calls, none of them breaches
    have quiet : ∀ i < n, ¬ BreachAt rm calls i := by
      intro i early breach
      obtain ⟨h, before, first⟩ := exists_firstBreach rm calls i breach
      exact none ⟨h, before.trans_lt early, first⟩
    have alive := (active_before_breach rm calls active n inside quiet).1
    rw [alive] at halted
    exact Bool.false_ne_true halted
  · rintro ⟨h, early, first⟩
    exact (frozen_after_breach rm calls active h first n early inside).1

/-- The monitor is active after call `i` exactly when no call up to it breaches. -/
theorem alive_iff_quiet (rm : RiskMonitor K) (calls : List (RiskCall K))
    (active : rm.state.haltFlag = false) (i : ℕ) (inside : i < calls.length) :
    (monitorAfter rm calls (i + 1)).state.haltFlag = false ↔ ∀ j ≤ i, ¬ BreachAt rm calls j := by
  rw [← Bool.not_eq_true, halted_iff_breach rm calls active (i + 1) inside, not_iff_comm]
  push Not
  constructor
  · rintro ⟨j, early, breach⟩
    obtain ⟨h, before, first⟩ := exists_firstBreach rm calls j breach
    exact ⟨h, by omega, first⟩
  · rintro ⟨h, early, first⟩
    exact ⟨h, by omega, first.1⟩

theorem action_after_breach (rm : RiskMonitor K) (calls : List (RiskCall K))
    (active : rm.state.haltFlag = false) (h : ℕ) (first : FirstBreach rm calls h)
    (found : h < calls.length) (i : ℕ) (inside : i < calls.length) (later : h ≤ i) :
    actionAt rm calls i inside =
      .haltAll (drawdownPct (highWater rm.state.peakPnl calls (h + 1)) calls[h].snap.netPnl) := by
  have breach := call_at_breach rm calls active h first found
  -- the halting call returns its own drawdown, later calls the recorded one
  rcases later.eq_or_lt with rfl | later
  · rw [actionAt, breach]
  · obtain ⟨halted, -, -, drawdown⟩ :=
      frozen_after_breach rm calls active h first i later inside.le
    rw [actionAt, call, evaluate_halted _ _ _ _ halted, drawdown, monitorAfter_succ rm calls h found,
      breach]

/-! ### The pause and resume automaton -/

omit [Field K] in
theorem checkMargin_cases (rm : RiskMonitor K) (margin : Option K) :
    rm.checkMargin margin = .continue ∨ ∃ ratio, rm.checkMargin margin = .closeDriftHedge ratio := by
  unfold checkMargin
  split
  · split
    · exact Or.inr ⟨_, rfl⟩
    · exact Or.inl rfl
  · exact Or.inl rfl

omit [Field K] in
theorem pauses_iff (rm : RiskMonitor K) (margin : Option K) (maxIl il p : K) (paused : Bool) :
    (ilAction (some maxIl) il paused).getD (rm.checkMargin margin) = .pauseRebalancing p ↔
      p = il ∧ maxIl < il := by
  by_cases above : maxIl < il
  · simp [ilAction, above, eq_comm]
  · rcases checkMargin_cases rm margin with healthy | ⟨ratio, low⟩ <;>
      cases paused <;> simp [ilAction, *]

omit [Field K] in
theorem resumes_iff (rm : RiskMonitor K) (margin : Option K) (maxIl il p : K) (paused : Bool) :
    (ilAction (some maxIl) il paused).getD (rm.checkMargin margin) = .resumeRebalancing p ↔
      p = il ∧ il ≤ maxIl ∧ paused = true := by
  by_cases above : maxIl < il
  · simp [ilAction, above, not_le.mpr above]
  · rcases checkMargin_cases rm margin with healthy | ⟨ratio, low⟩ <;>
      cases paused <;> simp [ilAction, not_lt.mp above, eq_comm, *]

/-- A resume is only returned while no breach has happened and an IL limit is set. -/
theorem quiet_of_resume (rm : RiskMonitor K) (calls : List (RiskCall K))
    (active : rm.state.haltFlag = false) (i : ℕ) (inside : i < calls.length) (p : K)
    (resumed : actionAt rm calls i inside = .resumeRebalancing p) :
    (∀ j ≤ i, ¬ BreachAt rm calls j) ∧ ∃ maxIl, rm.maxIlPct = some maxIl := by
  have quiet : ∀ j ≤ i, ¬ BreachAt rm calls j := by
    intro j before breach
    obtain ⟨h, early, first⟩ := exists_firstBreach rm calls j breach
    have halts := action_after_breach rm calls active h first (by omega) i inside (by omega)
    rw [resumed] at halts
    cases halts
  refine ⟨quiet, ?_⟩
  -- without an IL limit the action comes from the margin check
  cases limit : rm.maxIlPct with
  | some maxIl => exact ⟨maxIl, rfl⟩
  | none =>
    have action := (call_before_breach rm calls active i inside quiet).2
    rw [resumed, limit] at action
    rcases checkMargin_cases (monitorAfter rm calls i) calls[i].driftMarginRatio with
      healthy | ⟨ratio, low⟩ <;> simp_all [ilAction]

theorem pause_between_resumes (rm : RiskMonitor K) (calls : List (RiskCall K))
    (active : rm.state.haltFlag = false) (i j : ℕ) (earlier : i < calls.length)
    (inside : j < calls.length) (ordered : i < j) (p q : K)
    (resumed : actionAt rm calls i earlier = .resumeRebalancing p)
    (again : actionAt rm calls j inside = .resumeRebalancing q) :
    ∃ k, ∃ between : k < calls.length, i < k ∧ k < j ∧
      ∃ r, actionAt rm calls k between = .pauseRebalancing r := by
  obtain ⟨quiet, maxIl, limit⟩ := quiet_of_resume rm calls active j inside q again
  have calm : ∀ k ≤ j, ∀ l ≤ k, ¬ BreachAt rm calls l := fun k before l low => quiet l (by omega)
  by_contra none
  -- if no call in between pauses, the flag stays down and nothing can be resumed
  have cleared : ∀ n, i < n → n ≤ j → (monitorAfter rm calls n).state.pauseFlag = false := by
    intro n later
    induction n, later using Nat.le_induction with
    | base =>
      intro _
      obtain ⟨flag, action⟩ := call_before_breach rm calls active i earlier (calm i ordered.le)
      rw [action, limit, resumes_iff] at resumed
      rw [flag, limit]
      simpa [pauseAfter] using resumed.2.1
    | succ k later ih =>
      intro within
      have bound : k < calls.length := by omega
      obtain ⟨flag, action⟩ := call_before_breach rm calls active k bound (calm k (by omega))
      have calmHere : ¬ maxIl < ilPct calls[k].snap := by
        intro above
        exact none ⟨k, bound, later, by omega, _, by rw [action, limit, pauses_iff]; exact ⟨rfl, above⟩⟩
      rw [flag, limit]
      simpa [pauseAfter] using calmHere
  obtain ⟨-, action⟩ := call_before_breach rm calls active j inside quiet
  rw [action, limit, resumes_iff, cleared j ordered le_rfl] at again
  exact Bool.false_ne_true again.2.2

/-- The trace specification of `evaluate`, for a monitor that starts active. Call
`i` is the call with index `i`, and `n` calls are the calls before index `n`. -/
structure EvaluateTrace (rm : RiskMonitor K) (calls : List (RiskCall K)) : Prop where
  halted_iff : ∀ n ≤ calls.length,
    (monitorAfter rm calls n).state.haltFlag = true ↔ ∃ h < n, FirstBreach rm calls h
  halts_with_breach_drawdown : ∀ h, FirstBreach rm calls h → ∀ found : h < calls.length,
    ∀ i, ∀ inside : i < calls.length, h ≤ i → actionAt rm calls i inside =
      .haltAll (drawdownPct (highWater rm.state.peakPnl calls (h + 1)) calls[h].snap.netPnl)
  frozen_after : ∀ h, FirstBreach rm calls h → ∀ n ≤ calls.length, h < n →
    (monitorAfter rm calls n).state.peakPnl = (monitorAfter rm calls (h + 1)).state.peakPnl ∧
    (monitorAfter rm calls n).state.pauseFlag = (monitorAfter rm calls (h + 1)).state.pauseFlag ∧
    (monitorAfter rm calls n).state.currentDrawdownPct =
      (monitorAfter rm calls (h + 1)).state.currentDrawdownPct
  breach_keeps_pause : ∀ h, FirstBreach rm calls h →
    (monitorAfter rm calls (h + 1)).state.pauseFlag = (monitorAfter rm calls h).state.pauseFlag
  peak_is_highWater : ∀ n ≤ calls.length, (∀ i < n, ¬ BreachAt rm calls i) →
    (monitorAfter rm calls n).state.peakPnl = highWater rm.state.peakPnl calls n
  paused_iff : ∀ maxIl, rm.maxIlPct = some maxIl → ∀ i, ∀ inside : i < calls.length,
    (∀ j ≤ i, ¬ BreachAt rm calls j) →
    ((monitorAfter rm calls (i + 1)).state.pauseFlag = true ↔ maxIl < ilPct calls[i].snap)
  pause_action_iff : ∀ maxIl, rm.maxIlPct = some maxIl → ∀ i, ∀ inside : i < calls.length,
    (∀ j ≤ i, ¬ BreachAt rm calls j) → ∀ p,
    (actionAt rm calls i inside = .pauseRebalancing p ↔
      p = ilPct calls[i].snap ∧ maxIl < ilPct calls[i].snap)
  resume_action_iff : ∀ maxIl, rm.maxIlPct = some maxIl → ∀ i, ∀ inside : i < calls.length,
    (∀ j ≤ i, ¬ BreachAt rm calls j) → ∀ p,
    (actionAt rm calls i inside = .resumeRebalancing p ↔
      p = ilPct calls[i].snap ∧ ilPct calls[i].snap ≤ maxIl ∧
        (monitorAfter rm calls i).state.pauseFlag = true)
  pause_between_resumes : ∀ i j, ∀ earlier : i < calls.length, ∀ inside : j < calls.length,
    i < j → ∀ p q, actionAt rm calls i earlier = .resumeRebalancing p →
    actionAt rm calls j inside = .resumeRebalancing q →
    ∃ k, ∃ between : k < calls.length, i < k ∧ k < j ∧
      ∃ r, actionAt rm calls k between = .pauseRebalancing r
  pause_kept_without_limit : rm.maxIlPct = none → ∀ n ≤ calls.length,
    (monitorAfter rm calls n).state.pauseFlag = rm.state.pauseFlag
  operatorPause_kept : ∀ n ≤ calls.length,
    (monitorAfter rm calls n).state.operatorPause = rm.state.operatorPause

theorem pause_kept_without_limit (rm : RiskMonitor K) (calls : List (RiskCall K))
    (active : rm.state.haltFlag = false) (unlimited : rm.maxIlPct = none) (n : ℕ)
    (inside : n ≤ calls.length) :
    (monitorAfter rm calls n).state.pauseFlag = rm.state.pauseFlag := by
  induction n with
  | zero => rfl
  | succ n ih =>
    have bound : n < calls.length := inside
    rw [← ih bound.le]
    -- before the first breach the IL check is off; at it and after it the flag is kept
    by_cases quiet : ∀ j ≤ n, ¬ BreachAt rm calls j
    · rw [(call_before_breach rm calls active n bound quiet).1, unlimited]
      rfl
    · obtain ⟨j, before, breach⟩ : ∃ j ≤ n, BreachAt rm calls j := by
        simpa only [not_forall, not_not, exists_prop] using quiet
      obtain ⟨h, early, first⟩ := exists_firstBreach rm calls j breach
      rcases (early.trans before).eq_or_lt with rfl | later
      · rw [monitorAfter_succ rm calls h bound, call_at_breach rm calls active h first bound]
      · rw [(frozen_after_breach rm calls active h first n later bound.le).2.2.1,
          (frozen_after_breach rm calls active h first (n + 1) (by omega) inside).2.2.1]

/-- Every sequence of calls on an active monitor meets the trace specification. -/
theorem evaluate_trace (rm : RiskMonitor K) (calls : List (RiskCall K))
    (active : rm.state.haltFlag = false) : EvaluateTrace rm calls where
  halted_iff := halted_iff_breach rm calls active
  halts_with_breach_drawdown h first found i inside later :=
    action_after_breach rm calls active h first found i inside later
  frozen_after h first n inside later :=
    (frozen_after_breach rm calls active h first n later inside).2
  breach_keeps_pause h first := by
    obtain ⟨⟨found, -⟩, -⟩ := id first
    rw [monitorAfter_succ rm calls h found, call_at_breach rm calls active h first found]
  peak_is_highWater n inside quiet := (active_before_breach rm calls active n inside quiet).2
  paused_iff maxIl limit i inside quiet := by
    rw [(call_before_breach rm calls active i inside quiet).1, limit, pauseAfter, decide_eq_true_eq]
  pause_action_iff maxIl limit i inside quiet p := by
    rw [(call_before_breach rm calls active i inside quiet).2, limit, pauses_iff]
  resume_action_iff maxIl limit i inside quiet p := by
    rw [(call_before_breach rm calls active i inside quiet).2, limit, resumes_iff]
  pause_between_resumes i j earlier inside ordered p q resumed again :=
    pause_between_resumes rm calls active i j earlier inside ordered p q resumed again
  pause_kept_without_limit unlimited n inside :=
    pause_kept_without_limit rm calls active unlimited n inside
  operatorPause_kept n _ := (monitorAfter_constants rm calls n).2.2

/-- A monitor with a 15 % drawdown limit and a 4 % IL limit, as the source's tests use. -/
def sampleMonitor : RiskMonitor ℚ :=
  ⟨⟨"POOL", 0, 0, false, false, false, 0⟩, some 15, some 4, none⟩

/-- A profit, an IL excursion, its recovery, and a 20 % drawdown with high IL. -/
def sampleCalls : List (RiskCall ℚ) :=
  [⟨⟨0, 100, 1000⟩, none, 1⟩, ⟨⟨-50, 100, 1000⟩, none, 2⟩, ⟨⟨-30, 100, 1000⟩, none, 3⟩,
    ⟨⟨-50, 80, 1000⟩, none, 4⟩, ⟨⟨0, 100, 1000⟩, none, 5⟩]

theorem evaluate_trace_sample :
    sampleMonitor.state.haltFlag = false ∧ EvaluateTrace sampleMonitor sampleCalls :=
  ⟨rfl, evaluate_trace sampleMonitor sampleCalls rfl⟩

example : (List.ofFn fun i : Fin 5 => actionAt sampleMonitor sampleCalls i i.isLt) =
    [.continue, .pauseRebalancing 5, .resumeRebalancing 3, .haltAll 20, .haltAll 20] := by
  decide +kernel

end TickLiq.RiskMonitor
