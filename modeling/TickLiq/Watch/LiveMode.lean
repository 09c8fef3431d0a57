import Mathlib.Logic.Function.Basic
import TickLiq.Watch.SubmissionSafety
import TickLiq.Watch.TickRecords

/-!
# Watch sessions on one database, and the way to `--live`

Any number of sessions run on one database, each in its own process. A live one is refused at
its start unless the gate passes; after that the gate is not asked again.
-/
namespace TickLiq.Watch

open Machine (run run_history run_invariant Occurs occurs_concat bind_ok_iff)

structure Database (K : Type) where
  riskState : String → RiskRow K
  poolTicks : PoolTicks
  pnlHistory : List (PnlRow K)
  shadowRebalances : ShadowRebalances K

/-- A watch process. Without a database there is no monitor. -/
structure WatchProcess (K : Type) where
  config : PipelineConfig K
  position : Orca.WhirlpoolPosition
  cexWasStale : Bool
  monitor : Option (RiskMonitor K)
  submitted : List String
  alive : Bool

/-- Why `watch` ends before it starts. -/
inductive StartRefusal where
  | databaseRequired
  | shadowGate (status : GateStatus)
  | telegramNeedsDatabase
deriving DecidableEq

/-- What the command line, the environment and the first RPC calls give. -/
structure StartOptions (K : Type) where
  config : PipelineConfig K
  position : Orca.WhirlpoolPosition
  /-- `DATABASE_URL` is set. -/
  database : Bool
  maxDrawdownPct : Option K
  maxIlPct : Option K
  driftMinMarginRatio : Option K

structure Fleet (K : Type) where
  now : ℤ
  database : Database K
  process : ℕ → Option (WatchProcess K)

inductive FleetEvent (K : Type) where
  | elapse (micros : ℕ)
  | start (n : ℕ) (options : StartOptions K) (now : Timestamp)
  | session (n : ℕ) (e : PipelineEvent K)
  | stop (n : ℕ)

variable {K : Type} [Field K] [LinearOrder K]

/-- The gate is for live mode only, and its status decides. -/
def shadowGate (options : StartOptions K) (database : Database K) (now : ℤ) :
    Except StartRefusal Unit :=
  match options.config.guard with
  | .shadow => .ok ()
  | .live =>
    if options.database then
      let status := database.shadowRebalances.checkShadowGate options.config.poolAddress now
      if status.isPass then .ok () else .error (.shadowGate status)
    else .error .databaseRequired

/-- `load_or_init` and `reset_session`, if there is a database. -/
def startMonitor (options : StartOptions K) (database : Database K) (now : Timestamp) :
    Option (RiskMonitor K) × Database K :=
  if options.database then
    let pool := options.config.poolAddress
    let (st, row) := RiskRow.startSession (database.riskState pool) pool now
    (some ⟨st, options.maxDrawdownPct, options.maxIlPct, options.driftMinMarginRatio⟩,
      { database with riskState := Function.update database.riskState pool row })
  else (none, database)

def startWatch (options : StartOptions K) (database : Database K) (gateNow : ℤ)
    (now : Timestamp) : Except StartRefusal (WatchProcess K × Database K) := do
  shadowGate options database gateNow
  let started := startMonitor options database now
  if options.config.telegram && !options.database then throw .telegramNeedsDatabase
  return (⟨options.config, options.position, false, started.1, [], true⟩, started.2)

namespace WatchProcess

/-- The processor with the database as it finds it. -/
def joined (p : WatchProcess K) (database : Database K) : WatchState K where
  position := p.position
  cexWasStale := p.cexWasStale
  store := p.monitor.map fun monitor =>
    ⟨⟨monitor, database.riskState p.config.poolAddress⟩, database.poolTicks,
      database.pnlHistory, database.shadowRebalances⟩
  submitted := p.submitted
  alive := p.alive

/-- And as it leaves it. -/
def left (p : WatchProcess K) (s : WatchState K) : WatchProcess K where
  config := p.config
  position := s.position
  cexWasStale := s.cexWasStale
  monitor := s.store.map fun store => store.session.monitor
  submitted := s.submitted
  alive := s.alive

end WatchProcess

def Database.written (database : Database K) (pool : String) : Option (Store K) → Database K
  | none => database
  | some store =>
    ⟨Function.update database.riskState pool store.session.row, store.poolTicks,
      store.pnlHistory, store.shadowRebalances⟩

/-- `created_at` is the time of the server. -/
def PipelineEvent.stampedAt (now : ℤ) : PipelineEvent K → PipelineEvent K
  | .tick i => .tick { i with rowWrittenAt := now }
  | .operator paused at' => .operator paused at'

namespace Fleet

def step (s : Fleet K) : FleetEvent K → Option (Fleet K)
  | .elapse micros => some { s with now := s.now + micros }
  | .start n options now =>
    match s.process n with
    | some _ => none
    | none =>
      match startWatch options s.database s.now now with
      -- a process that is refused has changed nothing
      | .error _ => some s
      | .ok (process, database) =>
        some { s with database, process := Function.update s.process n (some process) }
  | .session n e =>
    match s.process n with
    | none => none
    | some p =>
      ((p.joined s.database).step p.config (e.stampedAt s.now)).map fun t =>
        { s with
          database := s.database.written p.config.poolAddress t.store
          process := Function.update s.process n (some (p.left t)) }
  | .stop n => some { s with process := Function.update s.process n none }

/-! ### What one event does -/

omit [LinearOrder K] in
/-- What a live process is started on. -/
theorem startWatch_ok {options : StartOptions K} {database database' : Database K} {gateNow : ℤ}
    {now : Timestamp} {p : WatchProcess K}
    (started : startWatch options database gateNow now = .ok (p, database')) :
    p.config = options.config ∧ p.submitted = [] ∧
      database'.shadowRebalances = database.shadowRebalances ∧
      (options.config.guard = .live →
        database.shadowRebalances.checkShadowGate options.config.poolAddress gateNow = .pass) := by
  obtain ⟨_, gate, started⟩ := (bind_ok_iff ..).mp started
  -- the start of the monitor writes to risk_state only
  have unchanged : (startMonitor options database now).2.shadowRebalances =
      database.shadowRebalances := by
    unfold startMonitor
    split <;> rfl
  have passed : options.config.guard = .live →
      database.shadowRebalances.checkShadowGate options.config.poolAddress gateNow = .pass := by
    intro live
    -- live mode is let through by a gate that passes and by nothing else
    simp only [shadowGate, live] at gate
    split at gate
    next present =>
      split at gate
      next pass =>
        cases status : database.shadowRebalances.checkShadowGate options.config.poolAddress gateNow <;>
          simp_all [GateStatus.isPass]
      next => cases gate
    next => cases gate
  by_cases needs : (options.config.telegram && !options.database) = true
  · simp only [needs, if_true] at started
    cases started
  · simp only [needs, Bool.false_eq_true, if_false] at started
    cases started
    exact ⟨rfl, rfl, unchanged, passed⟩

/-- A session adds rows about its own pool, stamped with the present and without errors; a command
of the operator adds none. -/
theorem session_adds {p : WatchProcess K} {database : Database K} {e : PipelineEvent K} {now : ℤ}
    {t : WatchState K} (moved : (p.joined database).step p.config (e.stampedAt now) = some t) :
    ∃ added, (database.written p.config.poolAddress t.store).shadowRebalances =
        database.shadowRebalances ++ added ∧
      (∀ stored ∈ added, stored.createdAt = now ∧ stored.row.errorFlag = false ∧
        stored.row.poolAddress = p.config.poolAddress) ∧
      (added ≠ [] → ∃ i, e = .tick i) := by
  cases monitored : p.monitor with
  | none =>
    -- without a database there is no store to write to
    have bare : t.store = none :=
      WatchState.step_none (by simp [WatchProcess.joined, monitored]) moved
    exact ⟨[], by simp [Database.written, bare], by simp, by simp⟩
  | some monitor =>
    have held : (p.joined database).store = some
        ⟨⟨monitor, database.riskState p.config.poolAddress⟩, database.poolTicks,
          database.pnlHistory, database.shadowRebalances⟩ := by
      simp [WatchProcess.joined, monitored]
    obtain ⟨store', held', appended⟩ := WatchState.step_appended held moved
    obtain ⟨added, grown, stamped, clean⟩ := appended.shadow
    refine ⟨added, by simp [Database.written, held', grown], ?_, ?_⟩
    · intro stored member
      refine ⟨?_, clean stored member⟩
      -- a tick stamps its rows with its time, a command of the operator adds none
      have time := stamped.subset (List.mem_map_of_mem member)
      cases e with
      | tick i => simpa [PipelineEvent.stampedAt, WatchState.rowTimes] using time
      | operator => simp [PipelineEvent.stampedAt, WatchState.rowTimes] at time
    · intro some
      cases e with
      | tick i => exact ⟨i, rfl⟩
      | operator =>
        have none : added = [] := by
          simpa [PipelineEvent.stampedAt, WatchState.rowTimes] using stamped
        exact absurd none some

/-- What each enabled event does. -/
theorem step_cases {s t : Fleet K} {e : FleetEvent K} (moved : s.step e = some t) :
    (∃ micros, e = .elapse micros ∧ t = { s with now := s.now + micros }) ∨
    (∃ n options now refusal, e = .start n options now ∧
      startWatch options s.database s.now now = .error refusal ∧ t = s) ∨
    (∃ n options now p database, e = .start n options now ∧ s.process n = none ∧
      startWatch options s.database s.now now = .ok (p, database) ∧
      t = { s with database, process := Function.update s.process n (some p) }) ∨
    (∃ n e' p u, e = .session n e' ∧ s.process n = some p ∧
      (p.joined s.database).step p.config (e'.stampedAt s.now) = some u ∧
      t = { s with
        database := s.database.written p.config.poolAddress u.store
        process := Function.update s.process n (some (p.left u)) }) ∨
    ∃ n, e = .stop n ∧ t = { s with process := Function.update s.process n none } := by
  cases e with
  | elapse micros =>
    cases moved
    exact Or.inl ⟨micros, rfl, rfl⟩
  | start n options now =>
    simp only [step] at moved
    -- a number that is taken cannot start again
    split at moved
    next => cases moved
    next free =>
      split at moved
      next refusal refused =>
        cases moved
        exact Or.inr (Or.inl ⟨n, options, now, refusal, rfl, refused, rfl⟩)
      next p database started =>
        cases moved
        exact Or.inr (Or.inr (Or.inl ⟨n, options, now, p, database, rfl, free, started, rfl⟩))
  | session n e =>
    simp only [step] at moved
    split at moved
    next => cases moved
    next p running =>
      obtain ⟨u, stepped, rfl⟩ := Option.map_eq_some_iff.mp moved
      exact Or.inr (Or.inr (Or.inr (Or.inl ⟨n, e, p, u, rfl, running, stepped, rfl⟩)))
  | stop n =>
    cases moved
    exact Or.inr (Or.inr (Or.inr (Or.inr ⟨n, rfl, rfl⟩)))

/-! ### The table of processes -/

theorem process_replaced {P : Type} {process : ℕ → Option P} {m n : ℕ} {p q : P}
    (found : Function.update process n (some p) m = some q) :
    m = n ∧ q = p ∨ process m = some q := by
  by_cases same : m = n
  · subst same
    rw [Function.update_self] at found
    exact Or.inl ⟨rfl, (Option.some.inj found).symm⟩
  · rw [Function.update_of_ne same] at found
    exact Or.inr found

theorem process_left {P : Type} {process : ℕ → Option P} {m n : ℕ} {q : P}
    (found : Function.update process n none m = some q) : process m = some q := by
  by_cases stopped : m = n
  · subst stopped
    rw [Function.update_self] at found
    cases found
  · rwa [Function.update_of_ne stopped] at found

/-! ### Runs -/

/-- A shadow session of the pool records a decision. -/
def ShadowDecision (pool : String) (s : Fleet K) (e : FleetEvent K) : Prop :=
  ∃ n i p t, e = .session n (.tick i) ∧ s.process n = some p ∧ p.config.guard = .shadow ∧
    p.config.poolAddress = pool ∧ s.step e = some t ∧
    s.database.shadowRebalances.length < t.database.shadowRebalances.length

/-- Every row goes back to a shadow session of its pool, and every live session to a row that was
two weeks old. -/
structure Grounded (start : Fleet K) (es : List (FleetEvent K)) (s : Fleet K) : Prop where
  rows : ∀ stored ∈ s.database.shadowRebalances,
    stored.createdAt ≤ s.now ∧ stored.row.errorFlag = false ∧
    Occurs step start es fun u e =>
      ShadowDecision stored.row.poolAddress u e ∧ u.now ≤ stored.createdAt
  live : ∀ n p, s.process n = some p → p.config.guard = .live →
    ∃ stored ∈ s.database.shadowRebalances, stored.row.poolAddress = p.config.poolAddress ∧
      stored.createdAt + durationDays shadowGateRequiredDays ≤ s.now

variable {start s t : Fleet K} {es : List (FleetEvent K)}

theorem grounded_session {n : ℕ} {e : PipelineEvent K} {p : WatchProcess K} {u : WatchState K}
    (kept : Grounded start es s) (before : run step start es = some s)
    (running : s.process n = some p)
    (stepped : (p.joined s.database).step p.config (e.stampedAt s.now) = some u) :
    Grounded start (es ++ [.session n e]) { s with
      database := s.database.written p.config.poolAddress u.store
      process := Function.update s.process n (some (p.left u)) } := by
  obtain ⟨added, grown, clean, ticked⟩ := session_adds stepped
  have moved : s.step (.session n e) = some { s with
      database := s.database.written p.config.poolAddress u.store
      process := Function.update s.process n (some (p.left u)) } := by
    simp only [step, running, stepped, Option.map_some]
  refine ⟨?_, ?_⟩
  · intro stored member
    dsimp only at member ⊢
    rw [grown] at member
    rw [occurs_concat step start s es _ _ before]
    rcases List.mem_append.mp member with old | new
    · obtain ⟨past, unflagged, origin⟩ := kept.rows stored old
      exact ⟨past, unflagged, Or.inl origin⟩
    · obtain ⟨stamped, unflagged, here⟩ := clean stored new
      refine ⟨stamped.le, unflagged, ?_⟩
      rw [here, stamped]
      have some : added ≠ [] := List.ne_nil_of_mem new
      cases mode : p.config.guard with
      | shadow =>
        obtain ⟨i, rfl⟩ := ticked some
        refine Or.inr ⟨⟨n, i, p, _, rfl, running, mode, rfl, moved, ?_⟩, le_refl _⟩
        rw [grown, List.length_append]
        have positive := List.length_pos_of_ne_nil some
        omega
      | live =>
        -- the row that let the session start leads back to a shadow session
        obtain ⟨first, inTable, same, aged⟩ := kept.live n p running mode
        obtain ⟨_, _, q, f, r, w, rfl, reached, decided, earlier⟩ := kept.rows first inTable
        left
        refine ⟨q, f, r, w, rfl, reached, same ▸ decided, ?_⟩
        simp only [durationDays, shadowGateRequiredDays] at aged
        omega
  · intro m q found live
    dsimp only at found ⊢
    have process : ∃ q', s.process m = some q' ∧ q'.config = q.config := by
      rcases process_replaced found with ⟨rfl, rfl⟩ | other
      · exact ⟨p, running, rfl⟩
      · exact ⟨q, other, rfl⟩
    obtain ⟨q', found', config⟩ := process
    obtain ⟨stored, inTable, here, aged⟩ := kept.live m q' found' (config ▸ live)
    rw [grown]
    exact ⟨stored, List.mem_append_left _ inTable, config ▸ here, aged⟩

theorem grounded_run (empty : start.database.shadowRebalances = [])
    (idle : ∀ n, start.process n = none) (played : run step start es = some t) :
    Grounded start es t := by
  refine run_history step start (Grounded start) ?_ ?_ es t played
  · refine ⟨?_, ?_⟩
    · simp [empty]
    · intro n p found
      rw [idle] at found
      cases found
  · intro es u e v before kept moved
    -- rows and decisions of before stay where they are, under a longer history
    have later : ∀ stored ∈ u.database.shadowRebalances, stored.createdAt ≤ u.now ∧
        stored.row.errorFlag = false ∧ Occurs step start (es ++ [e]) fun w e =>
          ShadowDecision stored.row.poolAddress w e ∧ w.now ≤ stored.createdAt := by
      intro stored member
      obtain ⟨past, unflagged, origin⟩ := kept.rows stored member
      exact ⟨past, unflagged, (occurs_concat step start u es e _ before).mpr (Or.inl origin)⟩
    rcases step_cases moved with ⟨micros, rfl, rfl⟩ | ⟨n, options, now, refusal, rfl, _, rfl⟩ |
      ⟨n, options, now, p, database, rfl, free, started, rfl⟩ |
      ⟨n, e', p, w, rfl, running, stepped, rfl⟩ | ⟨n, rfl, rfl⟩
    · refine ⟨?_, ?_⟩
      · intro stored member
        obtain ⟨past, rest⟩ := later stored member
        exact ⟨by dsimp only; omega, rest⟩
      · intro n p found live
        obtain ⟨stored, inTable, here, aged⟩ := kept.live n p found live
        exact ⟨stored, inTable, here, by dsimp only; omega⟩
    · exact ⟨later, kept.live⟩
    · obtain ⟨config, _, same, passed⟩ := startWatch_ok started
      refine ⟨by rwa [same], ?_⟩
      intro m q found live
      dsimp only at found ⊢
      rw [same]
      -- only the process that starts is new, and it passed the gate if it is live
      rcases process_replaced found with ⟨rfl, rfl⟩ | other
      · rw [config] at live ⊢
        exact (ShadowRebalances.checkShadowGate_pass_iff.mp (passed live)).1
      · exact kept.live m q other live
    · exact grounded_session kept before running stepped
    · refine ⟨later, ?_⟩
      intro m q found live
      exact kept.live m q (process_left found) live

/-- Only live processes have submitted anything. -/
theorem submitted_live (idle : ∀ n, start.process n = none) (played : run step start es = some t)
    {n : ℕ} {p : WatchProcess K} (running : t.process n = some p) (sent : p.submitted ≠ []) :
    p.config.guard = .live := by
  refine run_invariant step (fun s : Fleet K => ∀ n p, s.process n = some p → p.submitted ≠ [] →
    p.config.guard = .live) ?_ start t es played ?_ n p running sent
  · intro s e u kept moved m q found sent
    rcases step_cases moved with ⟨micros, rfl, rfl⟩ | ⟨n, options, now, refusal, rfl, _, rfl⟩ |
      ⟨n, options, now, p, database, rfl, free, started, rfl⟩ |
      ⟨n, e', p, w, rfl, running, stepped, rfl⟩ | ⟨n, rfl, rfl⟩
    · exact kept m q found sent
    · exact kept m q found sent
    · rcases process_replaced found with ⟨rfl, rfl⟩ | other
      · -- a process starts without transactions
        exact absurd (startWatch_ok started).2.1 sent
      · exact kept m q other sent
    · rcases process_replaced found with ⟨rfl, rfl⟩ | other
      · -- a new transaction was cleared, and a clearance needs live mode
        obtain ⟨tx, member⟩ := List.exists_mem_of_ne_nil _ sent
        rcases (WatchState.step_submits stepped tx).mp member with old | ⟨i, _, cleared⟩
        · exact kept m p running (List.ne_nil_of_mem old)
        · obtain ⟨pool, _, ⟨v, _, _, decided⟩, _⟩ := cleared
          exact decided.2.2
      · exact kept m q other sent
    · exact kept m q (process_left found) sent
  · intro m q found
    rw [idle] at found
    cases found

/-- However many sessions there are, and in whatever order they run: a process that has submitted a
transaction is live, and a shadow session of its pool recorded a decision two weeks before. -/
theorem submits_after_shadow (empty : start.database.shadowRebalances = [])
    (idle : ∀ n, start.process n = none) (played : run step start es = some t)
    {n : ℕ} {p : WatchProcess K} (running : t.process n = some p) (sent : p.submitted ≠ []) :
    p.config.guard = .live ∧ Occurs step start es fun u e =>
      ShadowDecision p.config.poolAddress u e ∧
        u.now + durationDays shadowGateRequiredDays ≤ t.now := by
  have live := submitted_live idle played running sent
  have grounded := grounded_run empty idle played
  obtain ⟨stored, inTable, here, aged⟩ := grounded.live n p running live
  obtain ⟨_, _, q, e, r, u, rfl, reached, decided, earlier⟩ := grounded.rows stored inTable
  refine ⟨live, q, e, r, u, rfl, reached, here ▸ decided, ?_⟩
  omega

def emptyFleet : Fleet ℚ := ⟨0, ⟨fun _ => none, .empty, [], []⟩, fun _ => none⟩

def quietOptions (guard : ShadowGuard) : StartOptions ℚ :=
  ⟨quietConfig guard, Orca.WhirlpoolPosition.ofBytes [], true, none, none, none⟩

/-- A shadow session decides, and two weeks later a live one starts beside it. -/
def rollout : List (FleetEvent ℚ) :=
  [.start 0 (quietOptions .shadow) 0, .session 0 (.tick quietTick), .elapse 1209600000000,
    .start 1 (quietOptions .live) 0, .session 1 (.tick quietTick)]

theorem submits_after_shadow_rollout : ∃ t p, run step emptyFleet rollout = some t ∧
    t.process 1 = some p ∧ p.submitted = ["rebalance_needed tick=0 range=[0,0]"] ∧
    p.config.guard = .live ∧ Occurs step emptyFleet rollout fun u e =>
      ShadowDecision p.config.poolAddress u e ∧
        u.now + durationDays shadowGateRequiredDays ≤ t.now := by
  have sent : ((run step emptyFleet rollout).bind fun t => (t.process 1).map
      WatchProcess.submitted) = some ["rebalance_needed tick=0 range=[0,0]"] := by decide +kernel
  obtain ⟨t, played, sent⟩ := Option.bind_eq_some_iff.mp sent
  obtain ⟨p, running, sent⟩ := Option.map_eq_some_iff.mp sent
  exact ⟨t, p, played, running, sent,
    submits_after_shadow rfl (fun _ => rfl) played running (by simp [sent])⟩

/-- No session closes the gate again: once a pool has passed, a live start of it is never refused
by the gate, whatever is recorded in the meantime. -/
theorem gate_stays_open {pool : String} (played : run step s es = some t)
    (passed : s.database.shadowRebalances.checkShadowGate pool s.now = .pass) :
    t.database.shadowRebalances.checkShadowGate pool t.now = .pass := by
  refine run_invariant step (fun s : Fleet K =>
    s.database.shadowRebalances.checkShadowGate pool s.now = .pass) ?_ s t es played passed
  intro s e u open' moved
  rcases step_cases moved with ⟨micros, rfl, rfl⟩ | ⟨n, options, now, refusal, rfl, _, rfl⟩ |
    ⟨n, options, now, p, database, rfl, free, started, rfl⟩ |
    ⟨n, e', p, w, rfl, running, stepped, rfl⟩ | ⟨n, rfl, rfl⟩
  · have none : ShadowRebalances.ErrorFree ([] : ShadowRebalances K) := by
      simp [ShadowRebalances.ErrorFree]
    have after : s.now ≤ s.now + micros := by omega
    simpa using ShadowRebalances.checkShadowGate_grows open' none after
  · exact open'
  · rw [← (startWatch_ok started).2.2.1] at open'
    exact open'
  · obtain ⟨added, grown, clean, _⟩ := session_adds stepped
    dsimp only
    rw [grown]
    exact ShadowRebalances.checkShadowGate_grows open'
      (fun stored member => (clean stored member).2.1) (le_refl _)
  · exact open'

/-- The gate of an old row, which a live session adds to. -/
def openFleet : Fleet ℚ :=
  ⟨1209600000000, ⟨fun _ => none, .empty, [],
    [⟨0, ShadowRebalances.approvalSkip "POOL" "timeout" 1⟩]⟩, fun _ => none⟩

theorem gate_stays_open_live : ∃ t, run step openFleet
    [.start 0 (quietOptions .live) 0, .session 0 (.tick quietTick), .elapse 1] = some t ∧
    t.database.shadowRebalances.checkShadowGate "POOL" t.now = .pass := by
  have played : ∃ t, run step openFleet
      [.start 0 (quietOptions .live) 0, .session 0 (.tick quietTick), .elapse 1] = some t :=
    Option.isSome_iff_exists.mp (by decide +kernel)
  obtain ⟨t, played⟩ := played
  exact ⟨t, played, gate_stays_open played (by decide +kernel)⟩

end Fleet

end TickLiq.Watch
