import TickLiq.Watch.RiskGate

/-!
# Margin reports of the watch loop

The three limits answer through one returned action. The watch loop logs what the
action says, so a low Drift margin is logged only on a tick on which neither the
drawdown check nor the IL check had something to return first.
-/
namespace TickLiq.Watch

open RiskMonitor (RiskCall Breaches BreachAt monitorAfter monitorAfter_succ ilAction ilPct
  call_before_breach evaluate_within alive_iff_quiet monitorAfter_driftMinMarginRatio)

variable {K : Type*} [Field K] [LinearOrder K]

def hedgeCloseMessage : String :=
  "risk: Drift margin below threshold -- Drift hedge close deferred (LIVE-02)"

/-- What the watch loop logs for the action of a tick. -/
def riskMessages : RiskAction K → List String
  | .haltAll _ => ["risk: drawdown limit breached -- halting all activity",
      "halt: drawdown limit hit -- LP close and Drift hedge close deferred (LIVE-02)"]
  | .pauseRebalancing _ => ["risk: IL pause active -- skipping rebalance this tick"]
  | .resumeRebalancing _ => ["risk: IL recovered -- resuming rebalance"]
  | .closeDriftHedge _ => [hedgeCloseMessage]
  | .continue => []

/-- There is a margin limit and the reading is below it. -/
def MarginLow (limit reading : Option K) : Prop :=
  ∃ minRatio ratio, limit = some minRatio ∧ reading = some ratio ∧ ratio < minRatio

instance (limit reading : Option K) : Decidable (MarginLow limit reading) :=
  match limit, reading with
  | none, _ => isFalse (by simp [MarginLow])
  | some _, none => isFalse (by simp [MarginLow])
  | some minRatio, some ratio => decidable_of_iff (ratio < minRatio) (by simp [MarginLow])

/-- A call that leaves the monitor active and a low margin out of the log. -/
def Missed (rm : RiskMonitor K) (c : RiskCall K) : Prop :=
  (rm.call c).1.state.haltFlag = false ∧ MarginLow rm.driftMinMarginRatio c.driftMarginRatio ∧
    hedgeCloseMessage ∉ riskMessages (rm.call c).2

instance (rm : RiskMonitor K) (c : RiskCall K) : Decidable (Missed rm c) :=
  inferInstanceAs (Decidable (_ ∧ _ ∧ _))

/-- The number of calls of a run that are `Missed`. -/
def unreported (rm : RiskMonitor K) : List (RiskCall K) → ℕ
  | [] => 0
  | c :: calls => (if Missed rm c then 1 else 0) + unreported (rm.call c).1 calls

/-- The IL check returns before the margin is looked at: the IL is above the
limit, or the pause set by an earlier call is lifted. -/
def IlReturns (limit : Option K) (il : K) (paused : Prop) : Prop :=
  ∃ maxIl, limit = some maxIl ∧ (maxIl < il ∨ paused)

instance (limit : Option K) (il : K) (paused : Prop) [Decidable paused] :
    Decidable (IlReturns limit il paused) :=
  match limit with
  | none => isFalse (by simp [IlReturns])
  | some maxIl => decidable_of_iff (maxIl < il ∨ paused) (by simp [IlReturns])

/-- Call `i` finds the pause set: the call before it was above the IL limit, or
there is none and the monitor started paused. -/
def PausedBefore (rm : RiskMonitor K) (calls : List (RiskCall K)) : ℕ → Prop
  | 0 => rm.state.pauseFlag = true
  | i + 1 => ∃ maxIl c, rm.maxIlPct = some maxIl ∧ calls[i]? = some c ∧ maxIl < ilPct c.snap

instance (rm : RiskMonitor K) (calls : List (RiskCall K)) :
    (i : ℕ) → Decidable (PausedBefore rm calls i)
  | 0 => inferInstanceAs (Decidable (_ = _))
  | i + 1 =>
    match limit : rm.maxIlPct, before : calls[i]? with
    | some maxIl, some c =>
      decidable_of_iff (maxIl < ilPct c.snap) (by simp [PausedBefore, limit, before])
    | none, _ => isFalse (by simp [PausedBefore, limit])
    | _, none => isFalse (by simp [PausedBefore, before])

/-! ### One call -/

omit [Field K] [LinearOrder K] in
theorem hedgeClose_logged (action : RiskAction K) :
    hedgeCloseMessage ∈ riskMessages action ↔ ∃ ratio, action = .closeDriftHedge ratio := by
  cases action with
  | closeDriftHedge ratio => simp [riskMessages]
  | haltAll dd => simp [riskMessages, hedgeCloseMessage]
  | pauseRebalancing il => simp [riskMessages, hedgeCloseMessage]
  | resumeRebalancing il => simp [riskMessages, hedgeCloseMessage]
  | «continue» => simp [riskMessages]

omit [Field K] in
theorem ilAction_isNone (limit : Option K) (il : K) (paused : Bool) :
    ilAction limit il paused = none ↔ ¬ IlReturns limit il (paused = true) := by
  cases limit with
  | none => simp [ilAction, IlReturns]
  | some maxIl =>
    by_cases above : maxIl < il
    · simp [ilAction, IlReturns, above]
    · cases paused <;> simp [ilAction, IlReturns, above]

omit [Field K] in
theorem ilAction_ne_closeDriftHedge (limit : Option K) (il ratio : K) (paused : Bool) :
    ilAction limit il paused ≠ some (.closeDriftHedge ratio) := by
  cases limit with
  | none => simp [ilAction]
  | some maxIl =>
    simp only [ilAction]
    split
    · simp
    · split <;> simp

omit [Field K] in
/-- With a low margin, the end of `evaluate` closes the hedge exactly when the IL
check returned nothing. -/
theorem closes_iff (rm : RiskMonitor K) (il minRatio ratio : K)
    (limit : rm.driftMinMarginRatio = some minRatio) (low : ratio < minRatio) (closed : K) :
    (ilAction rm.maxIlPct il rm.state.pauseFlag).getD (rm.checkMargin (some ratio)) =
        .closeDriftHedge closed ↔
      closed = ratio ∧ ¬ IlReturns rm.maxIlPct il (rm.state.pauseFlag = true) := by
  rw [← ilAction_isNone]
  cases returned : ilAction rm.maxIlPct il rm.state.pauseFlag with
  | none => simp [RiskMonitor.checkMargin, limit, low, eq_comm]
  | some action =>
    have other : action ≠ .closeDriftHedge closed := by
      rintro rfl
      exact ilAction_ne_closeDriftHedge _ _ _ _ returned
    simpa using other

/-- One call within the drawdown limit, with a margin below its limit. -/
theorem evaluate_closes_iff (rm : RiskMonitor K) (snap : PnlSnapshot K) (minRatio ratio : K)
    (now : Timestamp) (active : rm.state.haltFlag = false)
    (limit : rm.driftMinMarginRatio = some minRatio) (low : ratio < minRatio)
    (within : ¬ Breaches rm.maxDrawdownPct (max rm.state.peakPnl snap.netPnl) snap.netPnl)
    (closed : K) :
    (rm.evaluate snap (some ratio) now).2 = .closeDriftHedge closed ↔
      closed = ratio ∧ ¬ IlReturns rm.maxIlPct (ilPct snap) (rm.state.pauseFlag = true) := by
  obtain ⟨dd, result⟩ := evaluate_within rm snap (some ratio) now active within
  rw [result]
  exact closes_iff rm (ilPct snap) minRatio ratio limit low closed

theorem missed_iff (rm : RiskMonitor K) (c : RiskCall K)
    (alive : (rm.call c).1.state.haltFlag = false) :
    Missed rm c ↔ MarginLow rm.driftMinMarginRatio c.driftMarginRatio ∧
      IlReturns rm.maxIlPct (ilPct c.snap) (rm.state.pauseFlag = true) := by
  obtain ⟨active, within⟩ : rm.state.haltFlag = false ∧
      ¬ Breaches rm.maxDrawdownPct (max rm.state.peakPnl c.snap.netPnl) c.snap.netPnl := by
    rw [RiskMonitor.call, RiskMonitor.evaluate_haltFlag] at alive
    simpa using alive
  simp only [Missed, alive, true_and]
  refine and_congr_right fun low => ?_
  obtain ⟨minRatio, ratio, limit, reading, below⟩ := low
  rw [hedgeClose_logged, RiskMonitor.call, reading]
  simp only [evaluate_closes_iff rm c.snap minRatio ratio c.now active limit below within]
  simp

/-! ### Whole runs -/

theorem unreported_eq_zero_iff (rm : RiskMonitor K) (calls : List (RiskCall K)) :
    unreported rm calls = 0 ↔
      ∀ i, ∀ inside : i < calls.length, ¬ Missed (monitorAfter rm calls i) calls[i] := by
  induction calls generalizing rm with
  | nil => simp [unreported]
  | cons c calls ih =>
    -- call `i + 1` of the run is call `i` of the run that starts after `c`
    have shifted (i : ℕ) : monitorAfter rm (c :: calls) (i + 1) = monitorAfter (rm.call c).1 calls i :=
      rfl
    have first : (if Missed rm c then 1 else 0) = 0 ↔ ¬ Missed rm c := by simp
    rw [unreported, Nat.add_eq_zero_iff, first, ih]
    constructor
    · rintro ⟨head, tail⟩ i inside
      cases i with
      | zero => exact head
      | succ i =>
        rw [shifted]
        exact tail i (Nat.lt_of_succ_lt_succ inside)
    · intro all
      refine ⟨all 0 (Nat.succ_pos _), fun i inside => ?_⟩
      have later := all (i + 1) (Nat.succ_lt_succ inside)
      rwa [shifted] at later

/-- Until the first breach the pause flag says whether the call before was above
the IL limit. -/
theorem pauseFlag_iff (rm : RiskMonitor K) (calls : List (RiskCall K))
    (active : rm.state.haltFlag = false) (maxIl : K) (limit : rm.maxIlPct = some maxIl) (i : ℕ)
    (inside : i ≤ calls.length) (quiet : ∀ j < i, ¬ BreachAt rm calls j) :
    (monitorAfter rm calls i).state.pauseFlag = true ↔ PausedBefore rm calls i := by
  cases i with
  | zero => rfl
  | succ i =>
    have bound : i < calls.length := inside
    rw [(call_before_breach rm calls active i bound fun j early => quiet j (by omega)).1]
    simp [PausedBefore, limit, RiskMonitor.pauseAfter, bound]

theorem missed_at_iff (rm : RiskMonitor K) (calls : List (RiskCall K))
    (active : rm.state.haltFlag = false) (i : ℕ) (inside : i < calls.length) :
    Missed (monitorAfter rm calls i) calls[i] ↔
      (∀ j ≤ i, ¬ BreachAt rm calls j) ∧
      MarginLow rm.driftMinMarginRatio calls[i].driftMarginRatio ∧
      IlReturns rm.maxIlPct (ilPct calls[i].snap) (PausedBefore rm calls i) := by
  have alive := alive_iff_quiet rm calls active i inside
  rw [monitorAfter_succ rm calls i inside] at alive
  constructor
  · intro missed
    have quiet := alive.mp missed.1
    rw [missed_iff _ _ missed.1, monitorAfter_driftMinMarginRatio,
      (RiskMonitor.monitorAfter_constants rm calls i).2.1] at missed
    obtain ⟨low, maxIl, limit, returns⟩ := missed
    rw [pauseFlag_iff rm calls active maxIl limit i inside.le fun j early => quiet j early.le]
      at returns
    exact ⟨quiet, low, maxIl, limit, returns⟩
  · rintro ⟨quiet, low, maxIl, limit, returns⟩
    rw [missed_iff _ _ (alive.mpr quiet), monitorAfter_driftMinMarginRatio,
      (RiskMonitor.monitorAfter_constants rm calls i).2.1]
    rw [← pauseFlag_iff rm calls active maxIl limit i inside.le fun j early => quiet j early.le]
      at returns
    exact ⟨low, maxIl, limit, returns⟩

/-- A low margin is reported, on one call and over every run, exactly when the IL
check has nothing to return on that tick. -/
theorem margin_reported_iff (rm : RiskMonitor K) (minRatio : K)
    (active : rm.state.haltFlag = false) (limit : rm.driftMinMarginRatio = some minRatio) :
    (∀ (snap : PnlSnapshot K) (ratio : K) (now : Timestamp), ratio < minRatio →
      ¬ Breaches rm.maxDrawdownPct (max rm.state.peakPnl snap.netPnl) snap.netPnl →
      ((rm.evaluate snap (some ratio) now).2 = .closeDriftHedge ratio ↔
        ¬ IlReturns rm.maxIlPct (ilPct snap) (rm.state.pauseFlag = true))) ∧
    ∀ calls : List (RiskCall K), unreported rm calls = 0 ↔
      ∀ i, ∀ inside : i < calls.length, (∀ j ≤ i, ¬ BreachAt rm calls j) →
        MarginLow (some minRatio) calls[i].driftMarginRatio →
        ¬ IlReturns rm.maxIlPct (ilPct calls[i].snap) (PausedBefore rm calls i) := by
  constructor
  · intro snap ratio now low within
    rw [evaluate_closes_iff rm snap minRatio ratio now active limit low within]
    simp
  · intro calls
    rw [unreported_eq_zero_iff]
    refine forall_congr' fun i => forall_congr' fun inside => ?_
    rw [missed_at_iff rm calls active i inside, limit]
    tauto

/-- The sample monitor with a margin limit of 20 %. -/
def marginMonitor : RiskMonitor ℚ :=
  { RiskMonitor.sampleMonitor with driftMinMarginRatio := some (1 / 5) }

/-- A margin of 10 % before an IL pause and after it is lifted, and of 50 % during it. -/
def marginAroundPause : List (RiskCall ℚ) :=
  [⟨⟨0, 100, 1000⟩, some (1 / 10), 0⟩, ⟨⟨-50, 100, 1000⟩, some (1 / 2), 1⟩,
    ⟨⟨0, 100, 1000⟩, some (1 / 2), 2⟩, ⟨⟨0, 120, 1000⟩, some (1 / 10), 3⟩]

theorem margin_reported_iff_calm :
    (marginMonitor.evaluate ⟨0, 100, 1000⟩ (some (1 / 10)) 0).2 = .closeDriftHedge (1 / 10) ∧
      PausedBefore marginMonitor marginAroundPause 2 ∧
      unreported marginMonitor marginAroundPause = 0 := by
  obtain ⟨one, run⟩ := margin_reported_iff marginMonitor (1 / 5) rfl rfl
  have apart : ∀ i, ∀ inside : i < marginAroundPause.length,
      MarginLow (some (1 / 5)) marginAroundPause[i].driftMarginRatio →
        ¬ IlReturns marginMonitor.maxIlPct (ilPct marginAroundPause[i].snap)
          (PausedBefore marginMonitor marginAroundPause i) := by decide +kernel
  refine ⟨(one _ _ _ (by decide +kernel) (by decide +kernel)).mpr (by decide +kernel),
    by decide +kernel, (run _).mpr fun i inside _ => apart i inside⟩

/-- A margin of 10 % on five ticks, the first three of them at 5 % IL. -/
def thinMargin : List (RiskCall ℚ) :=
  (List.replicate 3 (⟨⟨-50, 100, 1000⟩, some (1 / 10), 0⟩ : RiskCall ℚ)) ++
    List.replicate 2 ⟨⟨0, 100, 1000⟩, some (1 / 10), 0⟩

/-- The pause hides the margin on three ticks and its lifting on a fourth. -/
theorem pause_masks_margin :
    marginMonitor.state.haltFlag = false ∧
    ¬ Breaches marginMonitor.maxDrawdownPct (max marginMonitor.state.peakPnl 100) 100 ∧
    (1 / 10 : ℚ) < 1 / 5 ∧ marginMonitor.driftMinMarginRatio = some (1 / 5) ∧
    (marginMonitor.evaluate ⟨-50, 100, 1000⟩ (some (1 / 10)) 0).2 = .pauseRebalancing 5 ∧
    unreported marginMonitor thinMargin = 4 := by
  decide +kernel

end TickLiq.Watch
