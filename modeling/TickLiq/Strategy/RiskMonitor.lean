import Mathlib.Algebra.Order.Field.Basic

/-!
# The risk monitor

`RiskMonitor::evaluate` and the data it reads and writes. The source computes in
`f64`; here the numbers are an ordered field `K`, so nothing is rounded and there
is no NaN. The Drift account and the RPC endpoint a monitor carries are only read
by the margin fetch, whose result is the argument `driftMarginRatio`.

The lemmas at the end say field by field what one call does. Nothing later
unfolds `evaluate`.
-/
namespace TickLiq

/-- A `DateTime<Utc>`, in microseconds since the Unix epoch. -/
abbrev Timestamp := ℤ

/-- The risk state of one pool, both in memory and as a row of `risk_state`. -/
structure RiskState (K : Type*) where
  poolAddress : String
  peakPnl : K
  currentDrawdownPct : K
  pauseFlag : Bool
  haltFlag : Bool
  /-- Set by `/pause`, cleared by `/resume`; independent of `pauseFlag`. -/
  operatorPause : Bool
  updatedAt : Timestamp
deriving DecidableEq

inductive RiskAction (K : Type*) where
  | continue
  | pauseRebalancing (ilPct : K)
  | resumeRebalancing (ilPct : K)
  | haltAll (drawdownPct : K)
  | closeDriftHedge (marginRatio : K)
deriving DecidableEq

/-- The fields of a `PnlSnapshot` that the risk limits are computed from. -/
structure PnlSnapshot (K : Type*) where
  ilUsd : K
  netPnl : K
  positionValue : K
deriving DecidableEq

structure RiskMonitor (K : Type*) where
  state : RiskState K
  maxDrawdownPct : Option K
  maxIlPct : Option K
  driftMinMarginRatio : Option K
deriving DecidableEq

namespace RiskMonitor

variable {K : Type*} [Field K] [LinearOrder K]

/-- `self.state.updated_at = Utc::now()` -/
def touch (rm : RiskMonitor K) (now : Timestamp) : RiskMonitor K :=
  { rm with state := { rm.state with updatedAt := now } }

/-- The high-water mark update. -/
def raisePeak (rm : RiskMonitor K) (snap : PnlSnapshot K) : RiskMonitor K :=
  if snap.netPnl > rm.state.peakPnl then
    { rm with state := { rm.state with peakPnl := snap.netPnl } }
  else rm

/-- Drawdown from `peak` in percent. -/
def drawdownPct (peak netPnl : K) : K := (peak - netPnl) / peak * 100

/-- Peaks below this are noise and establish no drawdown. -/
def minPeakUsd : K := 1

/-- The drawdown check, after the peak was raised: the drawdown is recorded
whenever a peak is established, and returned when it breaches the limit. -/
def checkDrawdown (rm : RiskMonitor K) (snap : PnlSnapshot K) : RiskMonitor K × Option K :=
  match rm.maxDrawdownPct with
  | none => (rm, none)
  | some maxDd =>
    if rm.state.peakPnl ≥ minPeakUsd then
      let dd := drawdownPct rm.state.peakPnl snap.netPnl
      if dd > maxDd then
        ({ rm with state := { rm.state with currentDrawdownPct := dd, haltFlag := true } }, some dd)
      else
        ({ rm with state := { rm.state with currentDrawdownPct := dd } }, none)
    else (rm, none)

/-- Impermanent loss in percent of the position's value. -/
def ilPct (snap : PnlSnapshot K) : K :=
  if snap.positionValue > 0 then |snap.ilUsd| / snap.positionValue * 100 else 0

/-- The IL check: `some` action ends the evaluation. -/
def checkIl (rm : RiskMonitor K) (snap : PnlSnapshot K) : RiskMonitor K × Option (RiskAction K) :=
  match rm.maxIlPct with
  | none => (rm, none)
  | some maxIl =>
    if ilPct snap > maxIl then
      ({ rm with state := { rm.state with pauseFlag := true } },
        some (.pauseRebalancing (ilPct snap)))
    else if rm.state.pauseFlag then
      ({ rm with state := { rm.state with pauseFlag := false } },
        some (.resumeRebalancing (ilPct snap)))
    else (rm, none)

/-- The Drift margin check. A missing reading counts as a healthy margin. -/
def checkMargin (rm : RiskMonitor K) (driftMarginRatio : Option K) : RiskAction K :=
  match rm.driftMinMarginRatio, driftMarginRatio with
  | some minRatio, some ratio => if ratio < minRatio then .closeDriftHedge ratio else .continue
  | _, _ => .continue

/-- `RiskMonitor::evaluate`: halt gate, peak, drawdown, IL, margin, in this order. -/
def evaluate (rm : RiskMonitor K) (snap : PnlSnapshot K) (driftMarginRatio : Option K)
    (now : Timestamp) : RiskMonitor K × RiskAction K :=
  -- a halted monitor reports the drawdown it halted at
  if rm.state.haltFlag then
    (rm.touch now, .haltAll rm.state.currentDrawdownPct)
  else
    match (rm.raisePeak snap).checkDrawdown snap with
    | (rm, some dd) => (rm.touch now, .haltAll dd)
    | (rm, none) =>
      -- the margin is looked at only if the IL check had nothing to report
      match rm.checkIl snap with
      | (rm, some action) => (rm.touch now, action)
      | (rm, none) => (rm.touch now, rm.checkMargin driftMarginRatio)

/-! ### What one call does -/

/-- The drawdown limit is breached at peak `peak` and net P&L `netPnl`. -/
def Breaches (limit : Option K) (peak netPnl : K) : Prop :=
  ∃ maxDd, limit = some maxDd ∧ minPeakUsd ≤ peak ∧ maxDd < drawdownPct peak netPnl

instance (limit : Option K) (peak netPnl : K) : Decidable (Breaches limit peak netPnl) :=
  match limit with
  | none => isFalse (by simp [Breaches])
  | some maxDd =>
    decidable_of_iff (minPeakUsd ≤ peak ∧ maxDd < drawdownPct peak netPnl) (by simp [Breaches])

/-- The IL pause after a call that was not cut short by the drawdown limit. -/
def pauseAfter (limit : Option K) (il : K) (paused : Bool) : Bool :=
  match limit with
  | none => paused
  | some maxIl => decide (maxIl < il)

/-- The action by which the IL check ends a call, if it does. -/
def ilAction (limit : Option K) (il : K) (paused : Bool) : Option (RiskAction K) :=
  match limit with
  | none => none
  | some maxIl =>
    if maxIl < il then some (.pauseRebalancing il)
    else if paused then some (.resumeRebalancing il) else none

omit [Field K] in
theorem raisePeak_eq (rm : RiskMonitor K) (snap : PnlSnapshot K) :
    rm.raisePeak snap =
      { rm with state := { rm.state with peakPnl := max rm.state.peakPnl snap.netPnl } } := by
  unfold raisePeak
  split
  next above => rw [max_eq_right above.le]
  next below => rw [max_eq_left (not_lt.mp below)]

theorem checkDrawdown_within (rm : RiskMonitor K) (snap : PnlSnapshot K)
    (within : ¬ Breaches rm.maxDrawdownPct rm.state.peakPnl snap.netPnl) :
    ∃ dd, rm.checkDrawdown snap =
      ({ rm with state := { rm.state with currentDrawdownPct := dd } }, none) := by
  obtain ⟨st, maxDrawdownPct, maxIlPct, driftMinMarginRatio⟩ := rm
  unfold checkDrawdown
  cases maxDrawdownPct with
  | none => exact ⟨st.currentDrawdownPct, rfl⟩
  | some maxDd =>
    dsimp only at within ⊢
    split
    next established =>
      -- an established peak records its drawdown without a breach
      rw [if_neg fun above => within ⟨maxDd, rfl, established, above⟩]
      exact ⟨_, rfl⟩
    next => exact ⟨st.currentDrawdownPct, rfl⟩

theorem checkIl_eq (rm : RiskMonitor K) (snap : PnlSnapshot K) :
    rm.checkIl snap =
      ({ rm with state := { rm.state with
          pauseFlag := pauseAfter rm.maxIlPct (ilPct snap) rm.state.pauseFlag } },
        ilAction rm.maxIlPct (ilPct snap) rm.state.pauseFlag) := by
  obtain ⟨st, maxDrawdownPct, maxIlPct, driftMinMarginRatio⟩ := rm
  unfold checkIl pauseAfter ilAction
  cases maxIlPct with
  | none => rfl
  | some maxIl =>
    -- above the limit both flags are set; below it the old flag decides the action
    by_cases above : maxIl < ilPct snap
    · simp only [gt_iff_lt, above, if_true, decide_true]
    · obtain ⟨poolAddress, peakPnl, currentDrawdownPct, pauseFlag, haltFlag, operatorPause,
        updatedAt⟩ := st
      cases pauseFlag <;> simp [above]

/-- A halted monitor only moves its timestamp. -/
theorem evaluate_halted (rm : RiskMonitor K) (snap : PnlSnapshot K) (margin : Option K)
    (now : Timestamp) (halted : rm.state.haltFlag = true) :
    rm.evaluate snap margin now = (rm.touch now, .haltAll rm.state.currentDrawdownPct) := by
  simp only [evaluate, halted, if_true]

/-- The call that breaches the drawdown limit raises the peak, records the
drawdown and latches the halt; the IL check is not reached. -/
theorem evaluate_breach (rm : RiskMonitor K) (snap : PnlSnapshot K) (margin : Option K)
    (now : Timestamp) (active : rm.state.haltFlag = false)
    (breach : Breaches rm.maxDrawdownPct (max rm.state.peakPnl snap.netPnl) snap.netPnl) :
    rm.evaluate snap margin now =
      ({ rm with state := { rm.state with
          peakPnl := max rm.state.peakPnl snap.netPnl
          currentDrawdownPct := drawdownPct (max rm.state.peakPnl snap.netPnl) snap.netPnl
          haltFlag := true
          updatedAt := now } },
        .haltAll (drawdownPct (max rm.state.peakPnl snap.netPnl) snap.netPnl)) := by
  obtain ⟨maxDd, limit, established, above⟩ := breach
  simp only [evaluate, active, raisePeak_eq, checkDrawdown, limit, ge_iff_le, established, if_true,
    gt_iff_lt, above, touch, Bool.false_eq_true, if_false]

/-- A call within the drawdown limit: the peak is raised, some drawdown is
recorded, and the IL and margin checks decide the rest. -/
theorem evaluate_within (rm : RiskMonitor K) (snap : PnlSnapshot K) (margin : Option K)
    (now : Timestamp) (active : rm.state.haltFlag = false)
    (within : ¬ Breaches rm.maxDrawdownPct (max rm.state.peakPnl snap.netPnl) snap.netPnl) :
    ∃ dd, rm.evaluate snap margin now =
      ({ rm with state := { rm.state with
          peakPnl := max rm.state.peakPnl snap.netPnl
          currentDrawdownPct := dd
          pauseFlag := pauseAfter rm.maxIlPct (ilPct snap) rm.state.pauseFlag
          haltFlag := false
          updatedAt := now } },
        (ilAction rm.maxIlPct (ilPct snap) rm.state.pauseFlag).getD (rm.checkMargin margin)) := by
  obtain ⟨dd, recorded⟩ := checkDrawdown_within (rm.raisePeak snap) snap
    (by simpa only [raisePeak_eq] using within)
  refine ⟨dd, ?_⟩
  simp only [evaluate]
  simp only [active, Bool.false_eq_true, if_false, recorded]
  simp only [checkIl_eq, raisePeak_eq]
  -- with or without an action of the IL check the state is the same
  cases ilAction rm.maxIlPct (ilPct snap) rm.state.pauseFlag with
  | none => simp only [touch, active, Option.getD_none, checkMargin]
  | some action => simp only [touch, active, Option.getD_some]

/-- The three ways a call can go, for statements about one field. -/
theorem evaluate_fields (rm : RiskMonitor K) (snap : PnlSnapshot K) (margin : Option K)
    (now : Timestamp) :
    (rm.evaluate snap margin now).1.maxDrawdownPct = rm.maxDrawdownPct ∧
    (rm.evaluate snap margin now).1.maxIlPct = rm.maxIlPct ∧
    (rm.evaluate snap margin now).1.driftMinMarginRatio = rm.driftMinMarginRatio ∧
    (rm.evaluate snap margin now).1.state.poolAddress = rm.state.poolAddress ∧
    (rm.evaluate snap margin now).1.state.operatorPause = rm.state.operatorPause ∧
    (rm.evaluate snap margin now).1.state.updatedAt = now := by
  cases halted : rm.state.haltFlag with
  | true => simp [evaluate_halted rm snap margin now halted, touch]
  | false =>
    by_cases breach : Breaches rm.maxDrawdownPct (max rm.state.peakPnl snap.netPnl) snap.netPnl
    · simp [evaluate_breach rm snap margin now halted breach]
    · obtain ⟨dd, result⟩ := evaluate_within rm snap margin now halted breach
      simp [result]

@[simp] theorem evaluate_maxDrawdownPct (rm : RiskMonitor K) (snap : PnlSnapshot K)
    (margin : Option K) (now : Timestamp) :
    (rm.evaluate snap margin now).1.maxDrawdownPct = rm.maxDrawdownPct :=
  (evaluate_fields rm snap margin now).1

@[simp] theorem evaluate_maxIlPct (rm : RiskMonitor K) (snap : PnlSnapshot K)
    (margin : Option K) (now : Timestamp) :
    (rm.evaluate snap margin now).1.maxIlPct = rm.maxIlPct :=
  (evaluate_fields rm snap margin now).2.1

@[simp] theorem evaluate_operatorPause (rm : RiskMonitor K) (snap : PnlSnapshot K)
    (margin : Option K) (now : Timestamp) :
    (rm.evaluate snap margin now).1.state.operatorPause = rm.state.operatorPause :=
  (evaluate_fields rm snap margin now).2.2.2.2.1

/-- The halt is a latch, set by a breach and by nothing else. -/
theorem evaluate_haltFlag (rm : RiskMonitor K) (snap : PnlSnapshot K) (margin : Option K)
    (now : Timestamp) :
    (rm.evaluate snap margin now).1.state.haltFlag =
      (rm.state.haltFlag ||
        decide (Breaches rm.maxDrawdownPct (max rm.state.peakPnl snap.netPnl) snap.netPnl)) := by
  cases halted : rm.state.haltFlag with
  | true => simp [evaluate_halted rm snap margin now halted, touch, halted]
  | false =>
    by_cases breach : Breaches rm.maxDrawdownPct (max rm.state.peakPnl snap.netPnl) snap.netPnl
    · simp [evaluate_breach rm snap margin now halted breach, breach]
    · obtain ⟨dd, result⟩ := evaluate_within rm snap margin now halted breach
      simp [result, breach]

theorem evaluate_peakPnl (rm : RiskMonitor K) (snap : PnlSnapshot K) (margin : Option K)
    (now : Timestamp) (active : rm.state.haltFlag = false) :
    (rm.evaluate snap margin now).1.state.peakPnl = max rm.state.peakPnl snap.netPnl := by
  by_cases breach : Breaches rm.maxDrawdownPct (max rm.state.peakPnl snap.netPnl) snap.netPnl
  · rw [evaluate_breach rm snap margin now active breach]
  · obtain ⟨dd, result⟩ := evaluate_within rm snap margin now active breach
    rw [result]

theorem evaluate_pauseFlag (rm : RiskMonitor K) (snap : PnlSnapshot K) (margin : Option K)
    (now : Timestamp) :
    (rm.evaluate snap margin now).1.state.pauseFlag =
      if rm.state.haltFlag = true ∨
          Breaches rm.maxDrawdownPct (max rm.state.peakPnl snap.netPnl) snap.netPnl then
        rm.state.pauseFlag
      else pauseAfter rm.maxIlPct (ilPct snap) rm.state.pauseFlag := by
  cases halted : rm.state.haltFlag with
  | true => simp [evaluate_halted rm snap margin now halted, touch]
  | false =>
    by_cases breach : Breaches rm.maxDrawdownPct (max rm.state.peakPnl snap.netPnl) snap.netPnl
    · simp [evaluate_breach rm snap margin now halted breach, breach]
    · obtain ⟨dd, result⟩ := evaluate_within rm snap margin now halted breach
      simp [result, breach]

end RiskMonitor
end TickLiq
