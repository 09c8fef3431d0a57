import TickLiq.Watch.TickPipeline

/-!
# What a run leaves in the database

Snapshot and P&L of a tick are written before the gates, so a halted session goes on recording.
The row of a decision comes after them. Nothing that was written is changed again.
-/
namespace TickLiq.Watch

open Machine (run run_history books books_concat KeyedRows Panic)

variable {K : Type} [Field K] [LinearOrder K]

omit [Field K] [LinearOrder K] in
theorem insert_prefix (table : PoolTicks) (row : StoredTick) :
    table.rows <+: (table.insert row).rows := by
  by_cases fresh : (row.poolAddress, row.slot) ∉ table.rows.map fun r => (r.poolAddress, r.slot)
  · rw [KeyedRows.insert_fresh fresh]
    exact List.prefix_append ..
  · rw [KeyedRows.insert_taken (not_not.mp fresh)]

namespace Store

/-- Before the gates: at most a row for the slot, and the P&L where its write is accepted. -/
theorem record_tables (store : Store K) (config : WatchConfig K) (i : TickInput K)
    (pool : Orca.WhirlpoolPool) (v : Valuation K) :
    store.poolTicks.rows <+: (store.record config i pool v).poolTicks.rows ∧
      (store.record config i pool v).pnlHistory = store.pnlHistory ++
        (if i.pnlWriteAccepted then [v.pnlRow config i.observedAt] else []) ∧
      (store.record config i pool v).shadowRebalances = store.shadowRebalances := by
  refine ⟨?_, ?_, rfl⟩
  -- a notification without a slot, a refused write and a failed one change nothing
  · simp only [record]
    split
    next slot notified =>
      split
      next accepted =>
        split
        next table written =>
          simp only [writePoolTick] at written
          split at written
          next row _ =>
            cases written
            exact insert_prefix store.poolTicks row
          next => cases written
        next => exact List.prefix_refl _
      next => exact List.prefix_refl _
    next => exact List.prefix_refl _
  · simp only [record]
    split
    next => rfl
    next => simp

/-- The same rows in every table. -/
structure SameTables (store store' : Store K) : Prop where
  poolTicks : store'.poolTicks = store.poolTicks
  pnlHistory : store'.pnlHistory = store.pnlHistory
  shadowRebalances : store'.shadowRebalances = store.shadowRebalances

theorem gates_sameTables (store : Store K) (i : TickInput K) (v : Valuation K) :
    SameTables store (store.gates i v).1 := ⟨rfl, rfl, rfl⟩

/-- The operator touches none of the tables. -/
theorem during_sameTables (store : Store K) (commands : List (Bool × Timestamp)) :
    SameTables store (store.during commands) := by
  induction commands generalizing store with
  | nil => exact ⟨rfl, rfl, rfl⟩
  | cons command commands ih =>
    obtain ⟨ticks, history, rows⟩ := ih (store.operator command.1 command.2)
    exact ⟨ticks, history, rows⟩

end Store

/-- After the gates: at most one row about the decision, for the pool that is watched, and none
that counts as an error. -/
structure DecisionRow (c : PipelineConfig K) (writtenAt : ℤ) (store store' : Store K) : Prop where
  poolTicks : store'.poolTicks = store.poolTicks
  pnlHistory : store'.pnlHistory = store.pnlHistory
  shadow : ∃ added, store'.shadowRebalances = store.shadowRebalances ++ added ∧
    (added.map StoredShadowRow.createdAt).Sublist [writtenAt] ∧
    ∀ stored ∈ added, stored.row.errorFlag = false ∧ stored.row.poolAddress = c.poolAddress

namespace DecisionRow

variable {c : PipelineConfig K} {writtenAt : ℤ}

omit [Field K] [LinearOrder K] in
theorem refl (store : Store K) : DecisionRow c writtenAt store store :=
  ⟨rfl, rfl, [], by simp, by simp, by simp⟩

omit [Field K] [LinearOrder K] in
theorem addRow (store : Store K) (i : TickInput K) {row : ShadowRebalanceRow K}
    (clean : row.errorFlag = false) (here : row.poolAddress = c.poolAddress) :
    DecisionRow c i.rowWrittenAt store (store.addRow i row) := by
  unfold Store.addRow
  split
  · refine ⟨rfl, rfl, [⟨i.rowWrittenAt, row⟩], rfl, by simp, ?_⟩
    simp [clean, here]
  · exact refl store

omit [Field K] [LinearOrder K] in
theorem addSkip (store : Store K) (i : TickInput K) (reason : String) (price : K) :
    DecisionRow c i.rowWrittenAt store (store.addSkip i c.poolAddress reason price) :=
  @addRow K c store i (ShadowRebalances.approvalSkip c.poolAddress reason price) rfl rfl

omit [Field K] [LinearOrder K] in
theorem behind {store gated store' : Store K} (same : Store.SameTables store gated)
    (row : DecisionRow c writtenAt gated store') : DecisionRow c writtenAt store store' := by
  refine ⟨row.poolTicks.trans same.poolTicks, row.pnlHistory.trans same.pnlHistory, ?_⟩
  rw [← same.shadowRebalances]
  exact row.shadow

end DecisionRow

namespace WatchState

variable {c : PipelineConfig K} {start s t : WatchState K} {es : List (PipelineEvent K)}
  {store : Store K}

theorem submitTick_store (i : TickInput K) (pool : Orca.WhirlpoolPool) (v : Valuation K)
    (reason : String) (held : s.store = some store) :
    ∃ store', (s.submitTick c i pool v reason).1.store = some store' ∧
      DecisionRow c i.rowWrittenAt store store' := by
  cases mode : c.guard with
  | shadow =>
    simp only [submitTick, mode, ShadowGuard.submit, held]
    split
    next failed => exact ⟨store, held, .refl store⟩
    next width built => exact ⟨_, rfl, .addRow store i rfl rfl⟩
  | live =>
    simp only [submitTick, mode, ShadowGuard.submit, held]
    split
    next failed => exact ⟨store, rfl, .refl store⟩
    next width built => exact ⟨_, rfl, .addRow store i rfl rfl⟩

theorem rebalanceTick_store (i : TickInput K) (pool : Orca.WhirlpoolPool) (v : Valuation K)
    (reason : String) (held : s.store = some store) :
    ∃ store', (s.rebalanceTick c i pool v reason).1.store = some store' ∧
      DecisionRow c i.rowWrittenAt store store' := by
  unfold rebalanceTick
  split
  next bot =>
    split
    next failed => exact ⟨store, held, .refl store⟩
    next width built =>
      split
      next skip skipped =>
        simp only [held, Option.map_some]
        exact ⟨_, rfl, .behind (store.during_sameTables i.commands) (.addSkip _ i skip v.price)⟩
      next granted =>
        have carried : ({ s with store := s.store.map (Store.during · i.commands) } :
            WatchState K).store = some (store.during i.commands) := by simp [held]
        obtain ⟨store', held', row⟩ := submitTick_store (c := c) i pool v reason carried
        exact ⟨store', held', row.behind (store.during_sameTables i.commands)⟩
  next => exact submitTick_store i pool v reason held

theorem decideTick_store (i : TickInput K) (pool : Orca.WhirlpoolPool) (v : Valuation K)
    (held : s.store = some store) :
    ∃ store', (s.decideTick c i pool v).1.store = some store' ∧
      DecisionRow c i.rowWrittenAt store store' := by
  unfold decideTick
  split
  next => exact ⟨store, held, .refl store⟩
  next => exact ⟨store, held, .refl store⟩
  next reason decided => exact rebalanceTick_store i pool v reason held

theorem gateTick_store (i : TickInput K) (pool : Orca.WhirlpoolPool) (v : Valuation K)
    (held : s.store = some store) :
    ∃ store', (s.gateTick c i pool v).1.store = some store' ∧
      DecisionRow c i.rowWrittenAt (store.record c.toWatchConfig i pool v) store' := by
  have same := (store.record c.toWatchConfig i pool v).gates_sameTables i v
  simp only [gateTick, held]
  split
  next gated outcome =>
    rw [outcome] at same
    exact ⟨gated, rfl, (DecisionRow.refl gated).behind same⟩
  next gated outcome =>
    rw [outcome] at same
    exact ⟨gated, rfl, (DecisionRow.refl gated).behind same⟩
  next gated outcome =>
    rw [outcome] at same
    obtain ⟨store', held', row⟩ := decideTick_store (c := c) (s := { s with store := some gated })
      i pool v rfl
    exact ⟨store', held', row.behind same⟩

def valuedRows (c : PipelineConfig K) (i : TickInput K)
    (valued : Except Panic (Valuation K)) : List (PnlRow K) :=
  match valued with
  | .error _ => []
  | .ok v => if i.pnlWriteAccepted then [v.pnlRow c.toWatchConfig i.observedAt] else []

/-- The rows of `pnl_history` that an event adds, whatever the gates say. -/
def pnlRows (c : PipelineConfig K) (s : WatchState K) : PipelineEvent K → List (PnlRow K)
  | .tick i =>
    match tickPool c.env.decode i.json i.poolFetch with
    | .error _ => []
    | .ok pool => valuedRows c i ((s.refreshed i).tickValuation c i pool)
  | .operator .. => []

theorem valuedRows_price {i : TickInput K} {valued : Except Panic (Valuation K)} {row : PnlRow K}
    (member : row ∈ valuedRows c i valued) : ∃ v, valued = .ok v ∧ row.price = v.price := by
  cases valued with
  | error failed => simp [valuedRows] at member
  | ok v =>
    simp only [valuedRows] at member
    split at member
    next accepted =>
      obtain rfl := List.mem_singleton.mp member
      exact ⟨v, rfl, rfl⟩
    next => cases member

/-- A row carries the price that was resolved for its tick. -/
theorem pnlRows_price {i : TickInput K} {row : PnlRow K} (member : row ∈ pnlRows c s (.tick i)) :
    ∃ pool, tickPool c.env.decode i.json i.poolFetch = .ok pool ∧
      row.price = (tickPrice c i pool s.cexWasStale).1 := by
  simp only [pnlRows] at member
  split at member
  next => cases member
  next pool read =>
    obtain ⟨v, valued, same⟩ := valuedRows_price member
    exact ⟨pool, read, same.trans (valuate_price valued)⟩

theorem pnlRows_length (i : TickInput K) : (pnlRows c s (.tick i)).length ≤ 1 := by
  simp only [pnlRows]
  split
  next => simp
  next pool read =>
    cases (s.refreshed i).tickValuation c i pool with
    | error failed => simp [valuedRows]
    | ok v =>
      simp only [valuedRows]
      split <;> simp

/-- When an event may write a row about a decision. -/
def rowTimes : PipelineEvent K → List ℤ
  | .tick i => [i.rowWrittenAt]
  | .operator .. => []

/-- What is appended to the tables: P&L rows, and rows about decisions at some of these times. -/
structure Appended (c : PipelineConfig K) (times : List ℤ) (rows : List (PnlRow K))
    (store store' : Store K) : Prop where
  poolTicks : store.poolTicks.rows <+: store'.poolTicks.rows
  pnlHistory : store'.pnlHistory = store.pnlHistory ++ rows
  shadow : ∃ added, store'.shadowRebalances = store.shadowRebalances ++ added ∧
    (added.map StoredShadowRow.createdAt).Sublist times ∧
    ∀ stored ∈ added, stored.row.errorFlag = false ∧ stored.row.poolAddress = c.poolAddress

omit [Field K] [LinearOrder K] in
theorem Appended.refl (times : List ℤ) (store : Store K) : Appended c times [] store store :=
  ⟨List.prefix_refl _, by simp, [], by simp, by simp, by simp⟩

omit [Field K] [LinearOrder K] in
theorem Appended.trans {times more : List ℤ} {rows later : List (PnlRow K)}
    {store store' last : Store K} (first : Appended c times rows store store')
    (second : Appended c more later store' last) :
    Appended c (times ++ more) (rows ++ later) store last := by
  obtain ⟨added, grown, stamped, clean⟩ := first.shadow
  obtain ⟨added', grown', stamped', clean'⟩ := second.shadow
  refine ⟨first.poolTicks.trans second.poolTicks, ?_, added ++ added', ?_, ?_, ?_⟩
  · rw [second.pnlHistory, first.pnlHistory, List.append_assoc]
  · rw [grown', grown, List.append_assoc]
  · rw [List.map_append]
    exact stamped.append stamped'
  · intro stored member
    rcases List.mem_append.mp member with before | after
    · exact clean stored before
    · exact clean' stored after

theorem valuedTick_appended (i : TickInput K) (pool : Orca.WhirlpoolPool)
    (valued : Except Panic (Valuation K)) (held : s.store = some store) :
    ∃ store', (s.valuedTick c i pool valued).1.store = some store' ∧
      Appended c [i.rowWrittenAt] (valuedRows c i valued) store store' := by
  cases valued with
  | error failed => exact ⟨store, held, .refl _ store⟩
  | ok v =>
    obtain ⟨store', held', row⟩ := gateTick_store (c := c) i pool v held
    obtain ⟨ticks, history, rows⟩ := store.record_tables c.toWatchConfig i pool v
    refine ⟨store', held', ?_, ?_, ?_⟩
    · rw [row.poolTicks]
      exact ticks
    · rw [row.pnlHistory, history]
      rfl
    · rw [← rows]
      exact row.shadow

theorem processTick_appended (i : TickInput K) (held : s.store = some store) :
    ∃ store', (s.processTick c i).1.store = some store' ∧
      Appended c [i.rowWrittenAt] (pnlRows c s (.tick i)) store store' := by
  simp only [processTick, pnlRows]
  cases read : tickPool c.env.decode i.json i.poolFetch with
  | error warning => exact ⟨store, held, .refl _ store⟩
  | ok pool =>
    exact valuedTick_appended
      (s := { s.refreshed i with cexWasStale := (tickPrice c i pool s.cexWasStale).2 }) i pool
      ((s.refreshed i).tickValuation c i pool) held

theorem step_appended {e : PipelineEvent K} (held : s.store = some store)
    (moved : s.step c e = some t) : ∃ store', t.store = some store' ∧
      Appended c (rowTimes e) (pnlRows c s e) store store' := by
  cases e with
  | operator paused now =>
    simp only [step, held, Option.map_some, Option.some.injEq] at moved
    subst moved
    exact ⟨_, rfl, List.prefix_refl _, by simp [pnlRows, Store.operator], [],
      by simp [Store.operator], by simp, by simp⟩
  | tick i =>
    simp only [step] at moved
    split at moved
    next alive =>
      cases moved
      exact processTick_appended i held
    next => cases moved

/-! ### Without a database -/

theorem submitTick_none (i : TickInput K) (pool : Orca.WhirlpoolPool) (v : Valuation K)
    (reason : String) (bare : s.store = none) :
    (s.submitTick c i pool v reason).1.store = none := by
  cases mode : c.guard with
  | shadow | live => simp [submitTick, mode, ShadowGuard.submit, bare]

theorem rebalanceTick_none (i : TickInput K) (pool : Orca.WhirlpoolPool) (v : Valuation K)
    (reason : String) (bare : s.store = none) :
    (s.rebalanceTick c i pool v reason).1.store = none := by
  unfold rebalanceTick
  split
  next bot =>
    split
    next failed => exact bare
    next width built =>
      split
      next skip skipped => simp [bare]
      next granted => exact submitTick_none i pool v reason (by simp [bare])
  next => exact submitTick_none i pool v reason bare

theorem valuedTick_none (i : TickInput K) (pool : Orca.WhirlpoolPool)
    (valued : Except Panic (Valuation K)) (bare : s.store = none) :
    (s.valuedTick c i pool valued).1.store = none := by
  cases valued with
  | error failed => exact bare
  | ok v =>
    simp only [valuedTick, gateTick, bare, decideTick]
    split
    next => exact bare
    next => exact bare
    next reason decided => exact rebalanceTick_none i pool v reason bare

theorem step_none {e : PipelineEvent K} (bare : s.store = none) (moved : s.step c e = some t) :
    t.store = none := by
  cases e with
  | operator paused now => simp [step, bare] at moved
  | tick i =>
    simp only [step] at moved
    split at moved
    next alive =>
      cases moved
      simp only [processTick]
      split
      next => exact bare
      next pool read =>
        exact valuedTick_none
          (s := { s.refreshed i with cexWasStale := (tickPrice c i pool s.cexWasStale).2 }) i pool
          ((s.refreshed i).tickValuation c i pool) bare
    next => cases moved

/-! ### The run -/

/-- A run only appends: a slot keeps its first row; `pnl_history` gets the row of every valued
tick, in order and whatever the gates say; and a tick leaves at most one row about its decision,
for the pool that is watched and never flagged as an error. -/
theorem tables_append_only (held : start.store = some store)
    (played : run (step c) start es = some t) : ∃ store', t.store = some store' ∧
      Appended c (es.flatMap rowTimes)
        (books (step c) (fun rows u e => rows ++ pnlRows c u e) [] start es) store store' := by
  refine run_history (step c) start (fun es t => ∃ store', t.store = some store' ∧
    Appended c (es.flatMap rowTimes)
      (books (step c) (fun rows u e => rows ++ pnlRows c u e) [] start es) store store')
    ⟨store, held, Appended.refl [] store⟩ ?_ es t played
  rintro es u e v before ⟨store', held', appended⟩ moved
  obtain ⟨last, heldLast, more⟩ := step_appended held' moved
  refine ⟨last, heldLast, ?_⟩
  rw [books_concat (step c) _ [] e before, List.flatMap_append, List.flatMap_singleton]
  exact appended.trans more

/-- A notification of a slot, without the account. -/
def slotTick (slot observedAt : ℤ) : TickInput ℚ :=
  { quietTick with
    json := .object [("params", .object [("result", .object [("context", .object
      [("slot", .integer slot)])])])]
    observedAt }

/-- Slot 7 twice, and slot 8 with its P&L refused. -/
def threeSlots : List (PipelineEvent ℚ) :=
  [.tick (slotTick 7 100), .tick (slotTick 7 200),
    .tick { slotTick 8 300 with pnlWriteAccepted := false }]

/-- A shadow session keeps the first row of slot 7. -/
theorem tables_append_only_slots : ∃ t store',
    run (step (quietConfig .shadow)) (quietState (RiskRow.freshState "POOL" 0)) threeSlots =
      some t ∧ t.store = some store' ∧
    store'.poolTicks.rows.map (fun row => (row.slot, row.time)) = [(7, 100), (8, 300)] ∧
    store'.pnlHistory.length = 2 ∧ store'.shadowRebalances.length = 3 ∧
    Appended (quietConfig .shadow) [0, 0, 0]
      (books (step (quietConfig .shadow)) (fun rows u e => rows ++ pnlRows (quietConfig .shadow) u e)
        [] (quietState (RiskRow.freshState "POOL" 0)) threeSlots)
      (quietStore (RiskRow.freshState "POOL" 0)) store' := by
  have counted : ((run (step (quietConfig .shadow)) (quietState (RiskRow.freshState "POOL" 0))
      threeSlots).bind fun t => t.store.map fun store =>
        (store.poolTicks.rows.map fun row => (row.slot, row.time), store.pnlHistory.length,
          store.shadowRebalances.length)) = some ([(7, 100), (8, 300)], 2, 3) := by decide +kernel
  obtain ⟨t, played, counted⟩ := Option.bind_eq_some_iff.mp counted
  obtain ⟨store', held, counts⟩ := Option.map_eq_some_iff.mp counted
  simp only [Prod.mk.injEq] at counts
  have started : (quietState (RiskRow.freshState "POOL" 0)).store =
    some (quietStore (RiskRow.freshState "POOL" 0)) := rfl
  obtain ⟨store'', held', appended⟩ := tables_append_only started played
  obtain rfl := Option.some.inj (held.symm.trans held')
  exact ⟨t, store', played, held, counts.1, counts.2.1, counts.2.2, appended⟩

end WatchState

end TickLiq.Watch
