import TickLiq.Watch.LiveSession

/-!
# Several sessions on one `risk_state` row

The row is keyed by the pool alone, so every session whose position lives in the
pool reads and writes the same one. Each session goes through `load_or_init`,
`reset_session` and its ticks, and may stop and start again at any point. The
full-row upsert writes back the `halt_flag` the session has in memory; a session
that was already running when another one stored a halt does not know of it.
-/
namespace TickLiq.Watch

open Machine (run run_append_some run_cons_some run_split Guarded guarded_append guarded_append_left
  guarded_invariant guarded_iff_split guarded_of_forall)

variable {K : Type*} [Field K] [LinearOrder K]

inductive Phase (K : Type*) where
  | stopped
  /-- `load_or_init` found no row. -/
  | inserting
  /-- `load_or_init` is done, `reset_session` is not. -/
  | resetting (loaded : RiskState K)
  | running (live : Live K)
deriving DecidableEq

inductive SessionEvent (K : Type*) where
  | select
  | insert (now : Timestamp)
  | reset (now : Timestamp) (maxDrawdownPct maxIlPct driftMinMarginRatio : Option K)
  | live (e : LiveEvent K)
  | stop

def phaseStep (poolAddress : String) (s : Phase K × RiskRow K) (e : SessionEvent K) :
    Option (Phase K × RiskRow K) :=
  let (phase, row) := s
  match e, phase with
  | .select, .stopped =>
    match row.select poolAddress with
    | some st => some (.resetting st, row)
    | none => some (.inserting, row)
  | .insert now, .inserting =>
    -- the fresh state is returned even if another session's row won the conflict
    some (.resetting (RiskRow.freshState poolAddress now), row.insertDefault poolAddress now)
  | .reset now maxDrawdownPct maxIlPct driftMinMarginRatio, .resetting st =>
    some (.running ⟨⟨RiskRow.resetVolatile st, maxDrawdownPct, maxIlPct, driftMinMarginRatio⟩,
      .idle, none⟩, row.resetSession now)
  | .live e, .running live => (liveStep (live, row) e).map fun t => (.running t.1, t.2)
  | .stop, .stopped => none
  | .stop, _ => some (.stopped, row)
  | _, _ => none

structure World (K : Type*) where
  row : RiskRow K
  session : ℕ → Phase K

inductive WorldEvent (K : Type*) where
  | session (i : ℕ) (e : SessionEvent K)
  /-- The operator's own SQL. -/
  | clearHalt (now : Timestamp)

def worldStep (poolAddress : String) (w : World K) : WorldEvent K → Option (World K)
  | .session i e =>
    (phaseStep poolAddress (w.session i, w.row) e).map fun t =>
      ⟨t.2, Function.update w.session i t.1⟩
  | .clearHalt now =>
    some { w with row := w.row.map fun st => { st with haltFlag := false, updatedAt := now } }

/-- No step of a session turns a stored halt off. -/
def NeverCleared (poolAddress : String) (start : World K) (events : List (WorldEvent K)) : Prop :=
  ∀ p i e q, events = p ++ .session i e :: q → ∀ u v,
    run (worldStep poolAddress) start p = some u →
    worldStep poolAddress u (.session i e) = some v → u.row.Halted → v.row.Halted

/-- An upsert that goes through does not meet a stored halt that its clone lacks. -/
def KnowsHalt (w : World K) : WorldEvent K → Prop
  | .session i (.live (.persist true _)) =>
    ∀ live clone, w.session i = .running live → live.tick = .persisting clone →
      w.row.Halted → clone.haltFlag = true
  | _ => True

/-- A session starts only while no other one is up. -/
def Alone (w : World K) : WorldEvent K → Prop
  | .session i .select => ∀ j, j ≠ i → w.session j = .stopped
  | _ => True

/-! ### One session's steps -/

omit [Field K] [LinearOrder K] in
theorem setOperatorPause_halted [Zero K] (row : RiskRow K) (paused : Bool) (now : Timestamp) :
    (row.setOperatorPause paused now).Halted ↔ row.Halted := by
  cases row <;> simp [RiskRow.setOperatorPause, RiskRow.Halted]

/-- Only an accepted upsert decides anew whether the row is halted. -/
theorem liveStep_halted {live : Live K} {row : RiskRow K} {e : LiveEvent K}
    {t : Live K × RiskRow K} (moved : liveStep (live, row) e = some t) :
    (∃ now clone, e = .persist true now ∧ live.tick = .persisting clone ∧
      (t.2.Halted ↔ clone.haltFlag = true)) ∨
    ((∀ now, e ≠ .persist true now) ∧ (t.2.Halted ↔ row.Halted)) := by
  obtain ⟨rfl, -, rfl⟩ | ⟨_, _, rfl, -, rfl⟩ | ⟨_, rfl, -, rfl⟩ |
    ⟨accepted, now, clone, rfl, phase, rfl⟩ | ⟨paused, now, rfl, -, rfl⟩ | ⟨_, rfl, -, rfl⟩ :=
    liveStep_cases moved
  · exact .inr ⟨by rintro _ ⟨⟩, Iff.rfl⟩
  · exact .inr ⟨by rintro _ ⟨⟩, Iff.rfl⟩
  · exact .inr ⟨by rintro _ ⟨⟩, Iff.rfl⟩
  · cases accepted with
    | true => exact .inl ⟨now, clone, rfl, phase, RiskRow.persistState_halted row _ _⟩
    | false => exact .inr ⟨by rintro _ ⟨⟩, Iff.rfl⟩
  · exact .inr ⟨by rintro _ ⟨⟩, setOperatorPause_halted row paused now⟩
  · exact .inr ⟨by rintro _ ⟨⟩, Iff.rfl⟩

theorem worldStep_session {poolAddress : String} {w v : World K} {i j : ℕ} {e : SessionEvent K}
    (other : j ≠ i) (moved : worldStep poolAddress w (.session i e) = some v) :
    v.session j = w.session j := by
  obtain ⟨t, -, rfl⟩ := Option.map_eq_some_iff.mp moved
  exact Function.update_of_ne other _ _

theorem run_session {poolAddress : String} {w v : World K} {i j : ℕ} {es : List (SessionEvent K)}
    (other : j ≠ i) (played : run (worldStep poolAddress) w (es.map (.session i)) = some v) :
    v.session j = w.session j := by
  induction es generalizing w with
  | nil =>
    cases played
    rfl
  | cons e es ih =>
    obtain ⟨u, moved, rest⟩ := (run_cons_some _ _ _ _ _).mp played
    exact (ih rest).trans (worldStep_session other moved)

theorem phaseStep_cases {poolAddress : String} {phase : Phase K} {row : RiskRow K}
    {e : SessionEvent K} {t : Phase K × RiskRow K}
    (moved : phaseStep poolAddress (phase, row) e = some t) :
    (e = .select ∧ phase = .stopped ∧ row = none ∧ t = (.inserting, row)) ∨
    (∃ st, e = .select ∧ phase = .stopped ∧ row = some st ∧
      t = (.resetting { st with poolAddress }, row)) ∨
    (∃ now, e = .insert now ∧ phase = .inserting ∧
      t = (.resetting (RiskRow.freshState poolAddress now),
        row.insertDefault poolAddress now)) ∨
    (∃ now dd il margin st, e = .reset now dd il margin ∧ phase = .resetting st ∧
      t = (.running ⟨⟨RiskRow.resetVolatile st, dd, il, margin⟩, .idle, none⟩,
        row.resetSession now)) ∨
    (∃ le live lt, e = .live le ∧ phase = .running live ∧ liveStep (live, row) le = some lt ∧
      t = (.running lt.1, lt.2)) ∨
    (e = .stop ∧ phase ≠ .stopped ∧ t = (.stopped, row)) := by
  cases e with
  | select =>
    -- a row that is there is loaded, else one is inserted
    cases phase with
    | stopped =>
      cases row with
      | none => exact .inl ⟨rfl, rfl, rfl, (Option.some.inj moved).symm⟩
      | some st => exact .inr (.inl ⟨st, rfl, rfl, rfl, (Option.some.inj moved).symm⟩)
    | _ => cases moved
  | insert now =>
    cases phase with
    | inserting => exact .inr (.inr (.inl ⟨now, rfl, rfl, (Option.some.inj moved).symm⟩))
    | _ => cases moved
  | reset now dd il margin =>
    cases phase with
    | resetting st =>
      exact .inr (.inr (.inr (.inl
        ⟨now, dd, il, margin, st, rfl, rfl, (Option.some.inj moved).symm⟩)))
    | _ => cases moved
  | live le =>
    cases phase with
    | running live =>
      obtain ⟨lt, inner, rfl⟩ := Option.map_eq_some_iff.mp moved
      exact .inr (.inr (.inr (.inr (.inl ⟨le, live, lt, rfl, rfl, inner, rfl⟩))))
    | _ => cases moved
  | stop =>
    cases phase with
    | stopped => cases moved
    -- a session may stop in any phase that it is in
    | _ => exact .inr (.inr (.inr (.inr (.inr
        ⟨rfl, by rintro ⟨⟩, (Option.some.inj moved).symm⟩))))

/-- A session step keeps a stored halt exactly if it is no unaware upsert. -/
theorem keepsHalt_iff {poolAddress : String} {w v : World K} {i : ℕ} {e : SessionEvent K}
    (moved : worldStep poolAddress w (.session i e) = some v) :
    (w.row.Halted → v.row.Halted) ↔ KnowsHalt w (.session i e) := by
  obtain ⟨t, inner, rfl⟩ := Option.map_eq_some_iff.mp moved
  obtain ⟨rfl, -, -, rfl⟩ | ⟨st, rfl, -, -, rfl⟩ | ⟨now, rfl, -, rfl⟩ |
    ⟨now, dd, il, margin, st, rfl, -, rfl⟩ | ⟨le, live, lt, rfl, running, step, rfl⟩ |
    ⟨rfl, -, rfl⟩ := phaseStep_cases inner
  · exact iff_of_true id trivial
  · exact iff_of_true id trivial
  · exact iff_of_true (RiskRow.insertDefault_halted _ _ _).mpr trivial
  · exact iff_of_true (RiskRow.resetSession_halted _ _).mpr trivial
  · -- an upsert that goes through leaves its clone's flag, every other step the row's
    obtain ⟨now, clone, rfl, writing, stored⟩ | ⟨noWrite, kept⟩ := liveStep_halted step
    · constructor
      · intro keeps live' clone' running' writing' halted
        obtain rfl : live = live' := by injection running.symm.trans running'
        obtain rfl : clone = clone' := by injection writing.symm.trans writing'
        exact stored.mp (keeps halted)
      · intro knows halted
        exact stored.mpr (knows live clone running writing halted)
    · refine iff_of_true kept.mpr ?_
      unfold KnowsHalt
      split
      next now same =>
        injection same with _ same
        injection same with same
        exact absurd same (noWrite now)
      next => trivial
  · exact iff_of_true id trivial

/-! ### Sessions that take turns -/

/-- What a session has in memory is halted if the row is, and its clone agrees with it. -/
def Carries (row : RiskRow K) : Phase K → Prop
  | .stopped => True
  | .inserting => ¬ row.Halted
  | .resetting st => row.Halted → st.haltFlag = true
  | .running live =>
    (row.Halted → live.monitor.state.haltFlag = true) ∧
      ∀ clone, live.tick = .persisting clone → clone.haltFlag = live.monitor.state.haltFlag

theorem liveStep_carries {live : Live K} {row : RiskRow K} {e : LiveEvent K}
    {t : Live K × RiskRow K} (moved : liveStep (live, row) e = some t)
    (carried : Carries row (.running live)) : Carries t.2 (.running t.1) := by
  obtain ⟨halted, cloned⟩ := carried
  obtain ⟨rfl, -, rfl⟩ | ⟨call, _, rfl, -, rfl⟩ | ⟨before, rfl, -, rfl⟩ |
    ⟨accepted, now, clone, rfl, phase, rfl⟩ | ⟨paused, now, rfl, -, rfl⟩ | ⟨_, rfl, -, rfl⟩ :=
    liveStep_cases moved
  · exact ⟨halted, by rintro _ ⟨⟩⟩
  · refine ⟨fun stored => ?_, by rintro _ ⟨⟩⟩
    -- `evaluate` never takes a halt back
    have latched := RiskMonitor.evaluate_haltFlag live.monitor call.snap call.driftMarginRatio
      call.now
    rwa [halted stored, Bool.true_or] at latched
  · refine ⟨halted, fun clone written => ?_⟩
    simp only [afterClone] at written
    split at written
    next =>
      cases written
      rfl
    next => cases written
  · refine ⟨fun stored => ?_, by rintro _ ⟨⟩⟩
    -- an accepted upsert makes row and clone agree
    cases accepted with
    | true => exact (cloned clone phase).symm.trans ((RiskRow.persistState_halted row _ _).mp stored)
    | false => exact halted stored
  · exact ⟨fun stored => halted ((setOperatorPause_halted row paused now).mp stored), cloned⟩
  · exact ⟨halted, cloned⟩

theorem phaseStep_carries {poolAddress : String} {phase : Phase K} {row : RiskRow K}
    {e : SessionEvent K} {t : Phase K × RiskRow K}
    (moved : phaseStep poolAddress (phase, row) e = some t) (carried : Carries row phase) :
    Carries t.2 t.1 := by
  obtain ⟨rfl, rfl, rfl, rfl⟩ | ⟨st, rfl, rfl, rfl, rfl⟩ | ⟨now, rfl, rfl, rfl⟩ |
    ⟨now, dd, il, margin, st, rfl, rfl, rfl⟩ | ⟨le, live, lt, rfl, rfl, step, rfl⟩ |
    ⟨rfl, -, rfl⟩ := phaseStep_cases moved
  · rintro ⟨st, absent, -⟩
    cases absent
  · rintro ⟨_, same, halted⟩
    obtain rfl := Option.some.inj same
    exact halted
  · intro stored
    exact absurd ((RiskRow.insertDefault_halted _ _ _).mp stored) carried
  · exact ⟨fun stored => carried ((RiskRow.resetSession_halted _ _).mp stored), by rintro _ ⟨⟩⟩
  · exact liveStep_carries step carried
  · trivial

/-- At most one session is up, and it knows of a stored halt. -/
def TakesTurns (w : World K) : Prop :=
  (∀ i, w.session i ≠ .stopped → ∀ j, j ≠ i → w.session j = .stopped) ∧
    ∀ i, Carries w.row (w.session i)

theorem takesTurns_step (poolAddress : String) (w : World K) (e : WorldEvent K) (v : World K)
    (turns : TakesTurns w) (alone : Alone w e) (moved : worldStep poolAddress w e = some v) :
    TakesTurns v := by
  obtain ⟨single, carried⟩ := turns
  cases e with
  | clearHalt now =>
    cases moved
    refine ⟨single, fun i => ?_⟩
    -- the operator's SQL leaves no halt to know of
    have cleared : ¬ RiskRow.Halted
        (w.row.map fun st => { st with haltFlag := false, updatedAt := now }) := by
      cases w.row <;> simp [RiskRow.Halted]
    have own := carried i
    cases phase : w.session i with
    | stopped => trivial
    | inserting => exact cleared
    | resetting st => exact fun stored => absurd stored cleared
    | running live =>
      rw [phase] at own
      exact ⟨fun stored => absurd stored cleared, own.2⟩
  | session i e =>
    obtain ⟨t, inner, rfl⟩ := Option.map_eq_some_iff.mp moved
    -- whoever moves, the others are down
    have others : ∀ j, j ≠ i → w.session j = .stopped := by
      by_cases up : w.session i = .stopped
      · cases e with
        | select => exact alone
        | insert => simp [phaseStep, up] at inner
        | reset => simp [phaseStep, up] at inner
        | live => simp [phaseStep, up] at inner
        | stop => simp [phaseStep, up] at inner
      · exact single i up
    refine ⟨fun k up j other => ?_, fun k => ?_⟩
    · by_cases mine : k = i
      · subst mine
        exact (Function.update_of_ne other _ _).trans (others j other)
      · have down := (Function.update_of_ne mine t.1 w.session).trans (others k mine)
        exact absurd down up
    · by_cases mine : k = i
      · subst mine
        simp only [Function.update_self]
        exact phaseStep_carries inner (carried k)
      · simp only [Function.update_of_ne mine, others k mine]
        trivial

omit [Field K] [LinearOrder K] in
theorem knowsHalt_of_takesTurns (w : World K) (e : WorldEvent K) (turns : TakesTurns w) :
    KnowsHalt w e := by
  unfold KnowsHalt
  split
  next i now =>
    intro live clone running writing halted
    have own := turns.2 i
    rw [running] at own
    exact (own.2 clone writing).trans (own.1 halted)
  next => trivial

/-- A run keeps stored halts exactly if every accepted upsert knows of the halt
it meets. Sessions that never overlap always do. -/
theorem never_cleared_iff (poolAddress : String) (start t : World K) (events : List (WorldEvent K))
    (played : run (worldStep poolAddress) start events = some t) :
    (NeverCleared poolAddress start events ↔
      Guarded (worldStep poolAddress) KnowsHalt start events) ∧
    ((∀ i, start.session i = .stopped) →
      Guarded (worldStep poolAddress) Alone start events →
        NeverCleared poolAddress start events) := by
  constructor
  · rw [guarded_iff_split]
    constructor
    · rintro never p e q rfl u before
      obtain ⟨u', v, before', moved, -⟩ := (run_split _ _ _ _ _ _).mp played
      obtain rfl := Option.some.inj (before.symm.trans before')
      cases e with
      | clearHalt => trivial
      | session i e => exact (keepsHalt_iff moved).mp (never p i e q rfl u v before moved)
    · intro knows p i e q split u v before moved
      exact (keepsHalt_iff moved).mpr (knows p _ q split u before)
  · rintro down alone p i e q rfl u v before moved
    have initially : TakesTurns start :=
      ⟨fun i up => absurd (down i) up, fun i => by rw [down i]; trivial⟩
    -- up to the step in question the sessions have taken turns
    have turns := guarded_invariant _ Alone TakesTurns (takesTurns_step poolAddress) start u p
      before (guarded_append_left _ _ _ _ _ alone) initially
    exact (keepsHalt_iff moved).mpr (knowsHalt_of_takesTurns u _ turns)

def emptyWorld : World ℚ := ⟨none, fun _ => .stopped⟩

/-- A tick with the given net P&L, its write accepted. -/
def tickOf (netPnl : ℚ) : List (SessionEvent ℚ) :=
  [.live .snapshot, .live (.evaluate ⟨⟨0, netPnl, 1000⟩, none, 1⟩), .live .clone,
    .live (.persist true 1)]

/-- A session halts at a 15 % drawdown limit, and goes down. -/
def haltedSession : List (SessionEvent ℚ) :=
  [.select, .insert 1, .reset 1 (some 15) none none] ++ tickOf 100 ++ tickOf 80 ++ [.stop]

/-- One that comes up on the row, and is paused in its first tick, so that it writes. -/
def pausedSession : List (SessionEvent ℚ) :=
  [.select, .reset 2 (some 15) none none, .live .snapshot,
    .live (.evaluate ⟨⟨0, 50, 1000⟩, none, 3⟩), .live (.handlerUpdate true 3),
    .live (.handlerMemory true), .live .clone, .live (.persist true 4)]

/-- One session goes down before the next comes up. -/
def handover : List (WorldEvent ℚ) :=
  haltedSession.map (.session 0) ++ pausedSession.map (.session 1)

theorem never_cleared_handover :
    (run (worldStep "POOL") emptyWorld (haltedSession.map (.session 0))).map World.row =
      some (some ⟨"POOL", 100, 20, false, true, false, 1⟩) ∧
    (run (worldStep "POOL") emptyWorld handover).map World.row =
      some (some ⟨"POOL", 0, 0, false, true, true, 4⟩) ∧
    NeverCleared "POOL" emptyWorld handover := by
  have stored : (run (worldStep "POOL") emptyWorld (haltedSession.map (.session 0))).map
      World.row = some (some ⟨"POOL", 100, 20, false, true, false, 1⟩) := by decide +kernel
  have written : (run (worldStep "POOL") emptyWorld handover).map World.row =
      some (some ⟨"POOL", 0, 0, false, true, true, 4⟩) := by decide +kernel
  obtain ⟨t, played, _⟩ := Option.map_eq_some_iff.mp written
  obtain ⟨u, before, rest⟩ := (run_append_some _ _ _ _ _).mp played
  have stopped : (run (worldStep "POOL") emptyWorld (haltedSession.map (.session 0))).map
      (fun w => w.session 0) = some .stopped := by decide +kernel
  rw [before, Option.map_some, Option.some.injEq] at stopped
  -- the second session starts when the first one is down
  have alone : Guarded (worldStep "POOL") Alone emptyWorld handover := by
    refine (guarded_append _ _ _ u _ _ before).mpr
      ⟨⟨fun _ _ => rfl, fun _ _ => guarded_of_forall _ _ _ _ ?_⟩,
        ⟨fun j _ => ?_, fun _ _ => guarded_of_forall _ _ _ _ ?_⟩⟩
    · simp [tickOf, Alone]
    · by_cases first : j = 0
      · rw [first, stopped]
      · exact run_session first before
    · simp [Alone]
  exact ⟨stored, written, (never_cleared_iff "POOL" emptyWorld t handover played).2
    (fun _ => rfl) alone⟩

/-- Two sessions with a 15 % drawdown limit come up; the first one halts. -/
def overlap : List (WorldEvent ℚ) :=
  [.session 0 .select, .session 0 (.insert 1), .session 0 (.reset 1 (some 15) none none),
    .session 1 .select, .session 1 (.reset 1 (some 15) none none)] ++
    (tickOf 100 ++ tickOf 80).map (.session 0)

def latePeak : List (WorldEvent ℚ) := (tickOf 50).map (.session 1)

/-- A new peak of the second session then writes `halt_flag = false`. -/
theorem stale_upsert_clears_halt : ¬ NeverCleared "POOL" emptyWorld (overlap ++ latePeak) := by
  intro never
  have halted : (run (worldStep "POOL") emptyWorld (overlap ++ latePeak.take 3)).map
      World.row = some (some ⟨"POOL", 100, 20, false, true, false, 1⟩) := by decide +kernel
  have cleared : (run (worldStep "POOL") emptyWorld (overlap ++ latePeak)).map
      World.row = some (some ⟨"POOL", 50, 0, false, false, false, 1⟩) := by decide +kernel
  obtain ⟨u, before, stored⟩ := Option.map_eq_some_iff.mp halted
  obtain ⟨v, played, overwritten⟩ := Option.map_eq_some_iff.mp cleared
  have last : overlap ++ latePeak =
      overlap ++ latePeak.take 3 ++ [.session 1 (.live (.persist true 1))] := rfl
  obtain ⟨u', before', moved⟩ := (Machine.run_concat_some _ _ _ _ _).mp (last ▸ played)
  obtain rfl := Option.some.inj (before.symm.trans before')
  have kept := never _ 1 _ [] last u v before moved (by simp [RiskRow.Halted, stored])
  simp [RiskRow.Halted, overwritten] at kept

end TickLiq.Watch
