import TickLiq.Watch.TickPipeline

/-!
# When a transaction is submitted

A tick submits when every stage lets it through, and each stage goes by what the one before
left. A session that is halted, or paused by its operator, comes no further than the gates.
-/
namespace TickLiq.Watch

open Machine (run run_cons_some run_history Occurs occurs_concat not_occurs_nil Panic)
open RiskMonitor (Breaches ilPct evaluate_halted evaluate_breach evaluate_within)

variable {K : Type} [Field K] [LinearOrder K]

/-- The monitor lets a tick with this valuation through: it is neither halted nor paused by the
operator, and the tick itself breaches no limit. -/
structure RiskCleared (rm : RiskMonitor K) (v : Valuation K) : Prop where
  active : rm.state.haltFlag = false
  resumed : rm.state.operatorPause = false
  drawdown : ¬Breaches rm.maxDrawdownPct (max rm.state.peakPnl v.netPnl) v.netPnl
  loss : ∀ maxIl, rm.maxIlPct = some maxIl → ilPct v.snapshot ≤ maxIl

/-- The IL check stops a tick above its limit, and the margin check stops none. -/
theorem haltTick_within (rm : RiskMonitor K) (snap : PnlSnapshot K) (paused : Bool)
    (margin : Option K) :
    haltTick ((RiskMonitor.ilAction rm.maxIlPct (ilPct snap) paused).getD
        (rm.checkMargin margin)) = false ↔
      ∀ maxIl, rm.maxIlPct = some maxIl → ilPct snap ≤ maxIl := by
  have margin_passes : haltTick (rm.checkMargin margin) = false := by
    unfold RiskMonitor.checkMargin
    split
    · split <;> rfl
    · rfl
  cases limit : rm.maxIlPct with
  | none => simp [RiskMonitor.ilAction, margin_passes]
  | some maxIl =>
    by_cases above : maxIl < ilPct snap
    · simp [RiskMonitor.ilAction, above, haltTick]
    · cases paused with
      | true => simp [RiskMonitor.ilAction, above, haltTick, not_lt.mp above]
      | false => simp [RiskMonitor.ilAction, above, margin_passes, not_lt.mp above]

namespace Store

theorem record_session (store : Store K) (config : WatchConfig K) (i : TickInput K)
    (pool : Orca.WhirlpoolPool) (v : Valuation K) :
    (store.record config i pool v).session = store.session := rfl

theorem gates_decision_iff (store : Store K) (i : TickInput K) (v : Valuation K) :
    (store.gates i v).2 = .decision ↔ RiskCleared store.session.monitor v := by
  simp only [gates]
  rw [decision_iff]
  simp only [riskGate, RiskMonitor.call, RiskMonitor.evaluate_operatorPause]
  cases halted : store.session.monitor.state.haltFlag with
  -- a halted monitor is never cleared again
  | true =>
    rw [evaluate_halted _ _ _ _ halted]
    simp only [haltTick_haltAll, Bool.true_eq_false, false_and, false_iff]
    intro cleared
    have active := cleared.active
    rw [halted] at active
    cases active
  | false =>
    -- a breach of the drawdown limit halts on this very tick
    by_cases breach : Breaches store.session.monitor.maxDrawdownPct
        (max store.session.monitor.state.peakPnl v.netPnl) v.netPnl
    · rw [evaluate_breach _ v.snapshot _ _ halted breach]
      simp only [haltTick_haltAll, Bool.true_eq_false, false_and, false_iff]
      exact fun cleared => cleared.drawdown breach
    · obtain ⟨dd, within⟩ := evaluate_within store.session.monitor v.snapshot
        i.driftMarginRatio i.evaluatedAt halted breach
      rw [within, haltTick_within]
      exact ⟨fun pass => ⟨halted, pass.2, breach, pass.1⟩,
        fun cleared => ⟨cleared.loss, cleared.resumed⟩⟩

end Store

namespace WatchState

/-! ### One tick, stage by stage -/

/-- The stage from `s` to `t` submits `tx` if `P`, and nothing otherwise. -/
def Submits (P : Prop) (tx : String) (s t : WatchState K) : Prop :=
  P ∧ t.submitted = s.submitted ++ [tx] ∨ ¬P ∧ t.submitted = s.submitted

omit [Field K] [LinearOrder K] in
theorem Submits.of_not {P : Prop} {tx : String} {s t : WatchState K} (stopped : ¬P)
    (same : t.submitted = s.submitted) : Submits P tx s t := Or.inr ⟨stopped, same⟩

omit [Field K] [LinearOrder K] in
/-- The stage after the gate decides. -/
theorem Submits.behind {P Q : Prop} {tx : String} {s s' t : WatchState K} (through : P ↔ Q)
    (same : s'.submitted = s.submitted) (later : Submits Q tx s' t) : Submits P tx s t := by
  rw [Submits, through, ← same]
  exact later

theorem submitTick_submits (c : PipelineConfig K) (s : WatchState K) (i : TickInput K)
    (pool : Orca.WhirlpoolPool) (v : Valuation K) (reason : String) :
    Submits (c.guard = .live) (planProxy s.position pool) s
      (s.submitTick c i pool v reason).1 := by
  cases mode : c.guard with
  | shadow =>
    refine .of_not (by simp) ?_
    simp only [submitTick, mode, ShadowGuard.submit]
    split
    · rfl
    · split <;> rfl
  | live =>
    refine Or.inl ⟨rfl, ?_⟩
    simp only [submitTick, mode, ShadowGuard.submit]
    split
    · rfl
    · split <;> rfl

/-- With a bot: the plan can be built, and the operator approves. -/
def Approved (c : PipelineConfig K) (pos : Orca.WhirlpoolPosition) (i : TickInput K)
    (pool : Orca.WhirlpoolPool) : Prop :=
  c.telegram = true → (∃ width, planWidth c pos pool = .ok width) ∧ i.approval = .answered true

theorem ApprovalReply.skipReason_none {reply : ApprovalReply} :
    reply.skipReason = none ↔ reply = .answered true := by
  rcases reply with _ | ⟨_ | _⟩ <;> simp [ApprovalReply.skipReason]

theorem rebalanceTick_submits (c : PipelineConfig K) (s : WatchState K) (i : TickInput K)
    (pool : Orca.WhirlpoolPool) (v : Valuation K) (reason : String) :
    Submits (Approved c s.position i pool ∧ c.guard = .live) (planProxy s.position pool) s
      (s.rebalanceTick c i pool v reason).1 := by
  cases bot : c.telegram with
  | false =>
    have approved : Approved c s.position i pool := by simp [Approved, bot]
    simp only [rebalanceTick, bot, Bool.false_eq_true, if_false]
    exact .behind (and_iff_right approved) rfl (submitTick_submits c s i pool v reason)
  | true =>
    simp only [rebalanceTick, bot, if_true]
    split
    -- no plan, no width for the proposal: the tick ends here
    next failed =>
      refine .of_not ?_ rfl
      rintro ⟨approved, _⟩
      obtain ⟨width, built⟩ := (approved bot).1
      rw [failed] at built
      cases built
    next width built =>
      split
      -- a proposal that was not approved is recorded as skipped
      next skip skipped =>
        refine .of_not ?_ rfl
        rintro ⟨approved, _⟩
        rw [(approved bot).2] at skipped
        cases skipped
      next granted =>
        have approved : Approved c s.position i pool := fun _ =>
          ⟨⟨width, built⟩, ApprovalReply.skipReason_none.mp granted⟩
        exact .behind (and_iff_right approved) rfl (submitTick_submits c _ i pool v reason)

/-- What has to be decided for the tick to go on to the guard. -/
def Decided (c : PipelineConfig K) (pos : Orca.WhirlpoolPosition) (i : TickInput K)
    (pool : Orca.WhirlpoolPool) (v : Valuation K) : Prop :=
  (∃ reason, rebalanceDecision c.env.checks pos pool v = .ok (.rebalance reason)) ∧
    Approved c pos i pool ∧ c.guard = .live

theorem decideTick_submits (c : PipelineConfig K) (s : WatchState K) (i : TickInput K)
    (pool : Orca.WhirlpoolPool) (v : Valuation K) :
    Submits (Decided c s.position i pool v) (planProxy s.position pool) s
      (s.decideTick c i pool v).1 := by
  simp only [decideTick, Decided]
  split
  next failed => exact .of_not (by simp [failed]) rfl
  next reason held => exact .of_not (by simp [held]) rfl
  next reason decided =>
    refine .behind (and_iff_right ⟨reason, decided⟩) rfl ?_
    exact rebalanceTick_submits c s i pool v reason

theorem gateTick_submits (c : PipelineConfig K) (s : WatchState K) (i : TickInput K)
    (pool : Orca.WhirlpoolPool) (v : Valuation K) :
    Submits ((∀ store, s.store = some store → RiskCleared store.session.monitor v) ∧
        Decided c s.position i pool v) (planProxy s.position pool) s (s.gateTick c i pool v).1 := by
  cases held : s.store with
  | none =>
    simp only [gateTick, held]
    exact .behind (by simp) rfl (decideTick_submits c s i pool v)
  | some store =>
    have gate := (store.record c.toWatchConfig i pool v).gates_decision_iff i v
    rw [store.record_session] at gate
    simp only [gateTick, held, Option.some.injEq, forall_eq']
    split
    next gated stopped =>
      rw [stopped] at gate
      exact .of_not (fun cleared => by simpa using gate.mpr cleared.1) rfl
    next gated stopped =>
      rw [stopped] at gate
      exact .of_not (fun cleared => by simpa using gate.mpr cleared.1) rfl
    next gated passed =>
      rw [passed] at gate
      exact .behind (and_iff_right (gate.mp rfl)) rfl
        (decideTick_submits c { s with store := some gated } i pool v)

/-- The pool is valued, the monitor is clear, and the tick is decided. -/
def ClearedOn (c : PipelineConfig K) (s : WatchState K) (i : TickInput K)
    (pool : Orca.WhirlpoolPool) (valued : Except Panic (Valuation K)) : Prop :=
  ∃ v, valued = .ok v ∧
    (∀ store, s.store = some store → RiskCleared store.session.monitor v) ∧
    Decided c s.position i pool v

theorem valuedTick_submits (c : PipelineConfig K) (s : WatchState K) (i : TickInput K)
    (pool : Orca.WhirlpoolPool) (valued : Except Panic (Valuation K)) :
    Submits (ClearedOn c s i pool valued) (planProxy s.position pool) s
      (s.valuedTick c i pool valued).1 := by
  cases valued with
  | error failed =>
    refine .of_not ?_ rfl
    rintro ⟨v, valued, _⟩
    cases valued
  | ok v =>
    refine .behind ?_ rfl (gateTick_submits c s i pool v)
    simp [ClearedOn]

/-- The tick submits `tx`: in live mode, on a pool and a position that can be read and valued,
with the monitor clear, the strategy for it, and an approval where there is a bot. -/
def Cleared (c : PipelineConfig K) (s : WatchState K) (i : TickInput K) (tx : String) : Prop :=
  ∃ pool, tickPool c.env.decode i.json i.poolFetch = .ok pool ∧
    ClearedOn c (s.refreshed i) i pool ((s.refreshed i).tickValuation c i pool) ∧
    planProxy (s.refreshed i).position pool = tx

theorem processTick_submits (c : PipelineConfig K) (s : WatchState K) (i : TickInput K) :
    (∃ tx, Cleared c s i tx ∧ (s.processTick c i).1.submitted = s.submitted ++ [tx]) ∨
      (∀ tx, ¬Cleared c s i tx) ∧ (s.processTick c i).1.submitted = s.submitted := by
  simp only [processTick, Cleared]
  split
  next failed => exact Or.inr ⟨by simp [failed], rfl⟩
  next pool read =>
    have stage := valuedTick_submits c
      { s.refreshed i with cexWasStale := (tickPrice c i pool s.cexWasStale).2 } i pool
      ((s.refreshed i).tickValuation c i pool)
    rcases stage with ⟨clear, sent⟩ | ⟨stopped, same⟩
    · exact Or.inl ⟨_, ⟨pool, read, clear, rfl⟩, sent⟩
    · refine Or.inr ⟨?_, same⟩
      rintro tx ⟨pool', read', clear, _⟩
      rw [read] at read'
      cases read'
      exact stopped clear

/-! ### Runs -/

variable {c : PipelineConfig K} {start s t : WatchState K} {es : List (PipelineEvent K)}

/-- What an event submits: a tick what it is cleared for, a command of the operator nothing. -/
def ClearedAt (c : PipelineConfig K) (s : WatchState K) (e : PipelineEvent K) (tx : String) :
    Prop := ∃ i, e = .tick i ∧ Cleared c s i tx

theorem step_submits {e : PipelineEvent K} (moved : s.step c e = some t) (tx : String) :
    tx ∈ t.submitted ↔ tx ∈ s.submitted ∨ ClearedAt c s e tx := by
  cases e with
  | operator paused now =>
    obtain ⟨store, _, rfl⟩ := Option.map_eq_some_iff.mp moved
    simp [ClearedAt]
  | tick i =>
    simp only [step] at moved
    split at moved
    next alive =>
      cases moved
      -- a tick is cleared for one transaction at most
      simp only [ClearedAt, PipelineEvent.tick.injEq, exists_eq_left']
      rcases s.processTick_submits c i with ⟨cleared, clear, sent⟩ | ⟨stopped, same⟩
      · have only : Cleared c s i tx ↔ tx = cleared := by
          constructor
          · rintro ⟨pool, read, _, rfl⟩
            obtain ⟨pool', read', _, rfl⟩ := clear
            rw [read] at read'
            cases read'
            rfl
          · rintro rfl
            exact clear
        simp [sent, only]
      · simp [same, stopped]
    next => cases moved

theorem step_submitted_length {e : PipelineEvent K} (moved : s.step c e = some t) :
    t.submitted.length ≤ s.submitted.length + if isTick e then 1 else 0 := by
  cases e with
  | operator paused now =>
    obtain ⟨store, _, rfl⟩ := Option.map_eq_some_iff.mp moved
    exact Nat.le_refl _
  | tick i =>
    simp only [step] at moved
    split at moved
    next alive =>
      cases moved
      rcases s.processTick_submits c i with ⟨tx, _, sent⟩ | ⟨_, same⟩
      · simp [sent, isTick]
      · simp [same, isTick]
    next => cases moved

/-- A tick of a stopped session leaves what it was stopped by, and adds nothing to what was
submitted or decided. -/
structure StaysStopped (store store' : Store K) : Prop where
  halted : store.session.monitor.state.haltFlag = true →
    store'.session.monitor.state.haltFlag = true
  paused : store'.session.monitor.state.operatorPause = store.session.monitor.state.operatorPause
  rows : store'.shadowRebalances = store.shadowRebalances

omit [Field K] [LinearOrder K] in
theorem StaysStopped.refl (store : Store K) : StaysStopped store store := ⟨id, rfl, rfl⟩

theorem gates_staysStopped (store : Store K) (config : WatchConfig K) (i : TickInput K)
    (pool : Orca.WhirlpoolPool) (v : Valuation K) :
    StaysStopped store ((store.record config i pool v).gates i v).1 := by
  have session : ((store.record config i pool v).gates i v).1.session =
      (riskGate store.session ⟨⟨v.snapshot, i.driftMarginRatio, i.evaluatedAt⟩,
        i.riskWriteAccepted, i.riskWrittenAt⟩).1 := tickGates_session ..
  refine ⟨fun halted => ?_, ?_, rfl⟩
  · rw [session]
    simp [riskGate, RiskMonitor.call, RiskMonitor.evaluate_haltFlag, halted]
  · rw [session]
    simp [riskGate, RiskMonitor.call]

def Stopped (store : Store K) : Prop :=
  store.session.monitor.state.haltFlag = true ∨ store.session.monitor.state.operatorPause = true

theorem Stopped.not_cleared {store : Store K} (stopped : Stopped store) (v : Valuation K) :
    ¬RiskCleared store.session.monitor v := by
  intro clear
  rcases stopped with halted | paused
  · simp [clear.active] at halted
  · simp [clear.resumed] at paused

theorem valuedTick_stopped {store : Store K} (i : TickInput K) (pool : Orca.WhirlpoolPool)
    (valued : Except Panic (Valuation K)) (held : s.store = some store) (stopped : Stopped store) :
    ∃ store', (s.valuedTick c i pool valued).1.store = some store' ∧
      StaysStopped store store' := by
  cases valued with
  | error failed => exact ⟨store, held, .refl store⟩
  | ok v =>
    have kept := gates_staysStopped store c.toWatchConfig i pool v
    have gate := (store.record c.toWatchConfig i pool v).gates_decision_iff i v
    rw [store.record_session] at gate
    simp only [valuedTick, gateTick, held]
    split
    next gated outcome =>
      rw [outcome] at kept
      exact ⟨gated, rfl, kept⟩
    next gated outcome =>
      rw [outcome] at kept
      exact ⟨gated, rfl, kept⟩
    next gated outcome =>
      rw [outcome] at gate
      exact absurd (gate.mp rfl) (stopped.not_cleared v)

theorem processTick_stopped {store : Store K} (i : TickInput K) (held : s.store = some store)
    (stopped : Stopped store) :
    (s.processTick c i).1.submitted = s.submitted ∧
      ∃ store', (s.processTick c i).1.store = some store' ∧ StaysStopped store store' := by
  constructor
  · rcases s.processTick_submits c i with ⟨tx, ⟨pool, _, ⟨v, _, clear, _⟩, _⟩, _⟩ | ⟨_, same⟩
    · exact absurd (clear store held) (stopped.not_cleared v)
    · exact same
  · simp only [processTick]
    split
    next warning => exact ⟨store, held, .refl store⟩
    next pool read =>
      exact valuedTick_stopped
        (s := { s.refreshed i with cexWasStale := (tickPrice c i pool s.cexWasStale).2 }) i pool
        ((s.refreshed i).tickValuation c i pool) held stopped

/-- The operator takes a pause back. -/
def resumes : PipelineEvent K → Bool
  | .operator paused _ => !paused
  | .tick _ => false

/-- Halted, or paused with no `/resume` to come. -/
def StoppedFor (store : Store K) (es : List (PipelineEvent K)) : Prop :=
  store.session.monitor.state.haltFlag = true ∨
    store.session.monitor.state.operatorPause = true ∧ ∀ e ∈ es, resumes e = false

theorem step_stopped {store : Store K} {e : PipelineEvent K} (held : s.store = some store)
    (stopped : StoppedFor store (e :: es)) (moved : s.step c e = some t) :
    t.submitted = s.submitted ∧ ∃ store', t.store = some store' ∧
      store'.shadowRebalances = store.shadowRebalances ∧ StoppedFor store' es := by
  cases e with
  | operator paused now =>
    simp only [step, held, Option.map_some, Option.some.injEq] at moved
    subst moved
    refine ⟨rfl, _, rfl, rfl, ?_⟩
    -- the session is paused, and only /resume would lift that
    rcases stopped with halted | ⟨_, kept⟩
    · exact Or.inl halted
    · have pausing : paused = true := by simpa [resumes] using kept _ (List.mem_cons_self ..)
      exact Or.inr ⟨pausing, fun e later => kept e (List.mem_cons_of_mem _ later)⟩
  | tick i =>
    simp only [step] at moved
    split at moved
    next alive =>
      cases moved
      have now : Stopped store := stopped.imp_right And.left
      obtain ⟨same, store', held', kept⟩ := processTick_stopped (c := c) i held now
      refine ⟨same, store', held', kept.rows, ?_⟩
      rcases stopped with halted | ⟨paused, unresumed⟩
      · exact Or.inl (kept.halted halted)
      · exact Or.inr ⟨kept.paused.trans paused,
          fun e later => unresumed e (List.mem_cons_of_mem _ later)⟩
    next => cases moved

/-- A halted session submits nothing and decides nothing any more, whatever the operator does; nor
does one that the operator has paused, as long as no `/resume` comes. -/
theorem stopped_run {store : Store K} (held : start.store = some store)
    (stopped : StoppedFor store es) (played : run (step c) start es = some t) :
    t.submitted = start.submitted ∧
      ∃ store', t.store = some store' ∧ store'.shadowRebalances = store.shadowRebalances := by
  induction es generalizing start store with
  | nil =>
    cases played
    exact ⟨rfl, store, held, rfl⟩
  | cons e es ih =>
    obtain ⟨u, moved, rest⟩ := (run_cons_some (step c) start t e es).mp played
    obtain ⟨same, store', held', rows, still⟩ := step_stopped held stopped moved
    obtain ⟨later, last, heldLast, rowsLast⟩ := ih held' still rest
    exact ⟨later.trans same, last, heldLast, rowsLast.trans rows⟩

/-- A session that starts halted, two ticks, and a `/resume` between them. -/
theorem stopped_run_halted : ∃ t,
    run (step (quietConfig .live)) (quietState ⟨"POOL", 0, 0, false, true, false, 0⟩)
      [.tick quietTick, .operator false 0, .tick quietTick] = some t ∧
    t.submitted = [] ∧ ∃ store', t.store = some store' ∧ store'.shadowRebalances = [] := by
  have played : ∃ t, run (step (quietConfig .live))
      (quietState ⟨"POOL", 0, 0, false, true, false, 0⟩)
      [.tick quietTick, .operator false 0, .tick quietTick] = some t :=
    Option.isSome_iff_exists.mp (by decide +kernel)
  obtain ⟨t, played⟩ := played
  have held : (quietState ⟨"POOL", 0, 0, false, true, false, 0⟩).store =
    some (quietStore ⟨"POOL", 0, 0, false, true, false, 0⟩) := rfl
  exact ⟨t, played, stopped_run held (Or.inl rfl) played⟩

end WatchState

end TickLiq.Watch
