import TickLiq.Data.ExchangeFeeds
import TickLiq.Watch.Notifications
import TickLiq.Watch.SubmissionSafety
import TickLiq.Watch.TickRecords

/-!
# Subscription, exchange feed and processor together

The subscription fills the queue, the feed keeps the shared price, and the processor takes one
notification after the other and works on it with the price it finds. All three run side by side.
A tick that the end of the program cuts short is left out.
-/
namespace TickLiq.Watch

open Machine (Binary64 run run_concat_some run_history Occurs occurs_concat)
open AccountWatch (SerdeJson)
open CexFeed (CexPrice Feed StreamEvent fromSecs streamStep brings)

structure WatchSystem (K : Type) where
  path : TickPath
  feed : Feed
  watch : WatchState K

inductive SystemEvent (K : Type) where
  /-- The subscription, the processor taking the next notification, and the end. -/
  | path (e : PathEvent)
  | feed (e : StreamEvent)
  /-- The processor has worked on the notification it took. -/
  | tick (i : TickInput K)
  | operator (paused : Bool) (now : Timestamp)

variable {K : Type} [Field K] [LinearOrder K]

section System

variable (serde : SerdeJson) (parse : String → Option Binary64) (symbol : String)
  (c : PipelineConfig K)

namespace WatchSystem

/-- The tick works on the notification that was taken, with the price that the feed holds. -/
def given (s : WatchSystem K) (update : Update Machine.JsonValue) (i : TickInput K) : TickInput K :=
  { i with json := update.json, cex := s.feed.state, cexAskedAt := s.feed.now }

/-- A tick ends with its processor waiting for the next notification, or panicking. -/
def ends (watch : WatchState K) : PathEvent := if watch.alive then .processor .finish else .panic

def step (s : WatchSystem K) : SystemEvent K → Option (WatchSystem K)
  -- the processor is done with a notification when the tick is done
  | .path (.processor .finish) => none
  | .path e => (s.path.step serde e).map fun path => { s with path }
  | .feed e => (streamStep parse symbol s.feed e).map fun feed => { s with feed }
  | .tick i =>
    match s.path.queue.processor with
    | .busy update =>
      (s.watch.step c (.tick (s.given update i))).bind fun watch =>
        (s.path.step serde (ends watch)).map fun path => { s with path, watch }
    | _ => none
  | .operator paused now =>
    (s.watch.step c (.operator paused now)).map fun watch => { s with watch }

/-! ### The parts on their own -/

/-- What each enabled event does to the three parts. -/
theorem step_cases {s t : WatchSystem K} {e : SystemEvent K}
    (moved : s.step serde parse symbol c e = some t) :
    (∃ e' path, e = .path e' ∧ s.path.step serde e' = some path ∧ t = { s with path }) ∨
    (∃ e' feed, e = .feed e' ∧ streamStep parse symbol s.feed e' = some feed ∧
      t = { s with feed }) ∨
    (∃ i update path watch, e = .tick i ∧ s.path.queue.processor = .busy update ∧
      s.watch.step c (.tick (s.given update i)) = some watch ∧
      s.path.step serde (ends watch) = some path ∧ t = { s with path, watch }) ∨
    ∃ paused now watch, e = .operator paused now ∧
      s.watch.step c (.operator paused now) = some watch ∧ t = { s with watch } := by
  cases e with
  | path e' =>
    left
    simp only [step] at moved
    split at moved
    next => cases moved
    next e' _ same =>
      cases same
      obtain ⟨path, stepped, rfl⟩ := Option.map_eq_some_iff.mp moved
      exact ⟨_, path, rfl, stepped, rfl⟩
    all_goals next same => cases same
  | feed e' =>
    obtain ⟨feed, stepped, rfl⟩ := Option.map_eq_some_iff.mp moved
    exact Or.inr (Or.inl ⟨e', feed, rfl, stepped, rfl⟩)
  | tick i =>
    simp only [step] at moved
    split at moved
    next update busy =>
      obtain ⟨watch, ticked, moved⟩ := Option.bind_eq_some_iff.mp moved
      obtain ⟨path, ended, rfl⟩ := Option.map_eq_some_iff.mp moved
      exact Or.inr (Or.inr (Or.inl ⟨i, update, path, watch, rfl, busy, ticked, ended, rfl⟩))
    next => cases moved
  | operator paused now =>
    obtain ⟨watch, stepped, rfl⟩ := Option.map_eq_some_iff.mp moved
    exact Or.inr (Or.inr (Or.inr ⟨paused, now, watch, rfl, stepped, rfl⟩))

/-- The notification that an event takes off the wire. -/
def wire : SystemEvent K → Option Machine.JsonValue
  | .path e => TickPath.wire serde e
  | _ => none

/-- The notifications that came in on the wire. -/
def notified (es : List (SystemEvent K)) : List Machine.JsonValue := es.filterMap (wire serde)

omit [Field K] [LinearOrder K] in
theorem notified_concat (es : List (SystemEvent K)) (e : SystemEvent K) :
    notified serde (es ++ [e]) = notified serde es ++ (wire serde e).toList := by
  rw [notified, List.filterMap_append]
  cases brought : wire serde e <;> simp [notified, brought]

omit [Field K] [LinearOrder K] in
theorem wire_ends (watch : WatchState K) : TickPath.wire serde (ends watch) = none := by
  unfold ends
  split <;> rfl

/-- The path makes a run of its own, on the same notifications. -/
theorem path_run {s t : WatchSystem K} {es : List (SystemEvent K)}
    (played : run (step serde parse symbol c) s es = some t) :
    ∃ fs, run (TickPath.step serde) s.path fs = some t.path ∧
      fs.filterMap (TickPath.wire serde) = notified serde es := by
  refine run_history (step serde parse symbol c) s (fun es t => ∃ fs,
    run (TickPath.step serde) s.path fs = some t.path ∧
      fs.filterMap (TickPath.wire serde) = notified serde es) ⟨[], rfl, rfl⟩ ?_ es t played
  rintro es u e v _ ⟨fs, reached, heard⟩ moved
  rcases step_cases serde parse symbol c moved with ⟨e', path, rfl, stepped, rfl⟩ |
    ⟨e', feed, rfl, _, rfl⟩ | ⟨i, update, path, watch, rfl, _, _, ended, rfl⟩ |
    ⟨paused, now, watch, rfl, _, rfl⟩
  · refine ⟨fs ++ [e'], (run_concat_some ..).mpr ⟨u.path, reached, stepped⟩, ?_⟩
    rw [List.filterMap_append, heard, notified_concat]
    cases brought : TickPath.wire serde e' <;> simp [wire, brought]
  · exact ⟨fs, reached, by simpa [notified_concat, wire] using heard⟩
  · refine ⟨fs ++ [ends watch], (run_concat_some ..).mpr ⟨u.path, reached, ended⟩, ?_⟩
    rw [List.filterMap_append, heard, notified_concat]
    simp [wire, wire_ends]
  · exact ⟨fs, reached, by simpa [notified_concat, wire] using heard⟩

/-! ### One tick a notification -/

def isTickEvent : SystemEvent K → Bool
  | .tick _ => true
  | _ => false

def inHand : TickProcessor Machine.JsonValue → ℕ
  | .busy _ => 1
  | _ => 0

/-- What is in hand has been taken from the queue. -/
theorem path_count {s t : TickPath} {e : PathEvent} (moved : s.step serde e = some t) :
    s.queue.handled.length + inHand t.queue.processor ≤
      t.queue.handled.length + inHand s.queue.processor := by
  cases TickPath.step_moves serde moved with
  | watch e watch stepped =>
    obtain ⟨_, handled, _, processor⟩ := TickPath.release_eq
      (TickPath.enqueue s.queue (AccountWatch.heard serde e)) watch.phase
    obtain ⟨sameHandled, sameProcessor, _⟩ := TickPath.enqueue_ends s.queue
      (AccountWatch.heard serde e)
    simp only [handled, processor, sameHandled, sameProcessor, le_refl]
  | recv update channel idle taken => simp [idle, inHand]
  | finish update busy => simp [busy, inHand]
  | panic | dropped => simp [TickPath.cut, inHand]
  | exit | joined | timedOut => simp [inHand]

omit [Field K] [LinearOrder K] in
/-- A tick lets go of its notification. -/
theorem ends_count {s t : TickPath} (watch : WatchState K)
    (moved : s.step serde (ends watch) = some t) :
    t.queue.handled = s.queue.handled ∧ inHand t.queue.processor = 0 := by
  unfold ends at moved
  split at moved
  next => cases TickPath.step_moves serde moved with
    | finish => exact ⟨rfl, rfl⟩
  next => cases TickPath.step_moves serde moved with
    | panic => exact ⟨rfl, rfl⟩

theorem ticks_le_notified {now : ℕ} {s t : WatchSystem K} {es : List (SystemEvent K)}
    (fresh : s.path = TickPath.initial now)
    (played : run (step serde parse symbol c) s es = some t) :
    es.countP isTickEvent ≤ (notified serde es).length := by
  -- every tick was given an update, and the one in hand has not ticked yet
  have counted : es.countP isTickEvent + inHand t.path.queue.processor ≤
      t.path.queue.handled.length := by
    refine run_history (step serde parse symbol c) s (fun es t => es.countP isTickEvent +
      inHand t.path.queue.processor ≤ t.path.queue.handled.length) ?_ ?_ es t played
    · simp [fresh, TickPath.initial, TickQueue.initial, inHand]
    · intro es u e v before ih moved
      rw [List.countP_append, List.countP_singleton]
      rcases step_cases serde parse symbol c moved with ⟨e', path, rfl, stepped, rfl⟩ |
        ⟨e', feed, rfl, _, rfl⟩ | ⟨i, update, path, watch, rfl, busy, _, ended, rfl⟩ |
        ⟨paused, now, watch, rfl, _, rfl⟩
      · have count := path_count serde stepped
        simp only [isTickEvent, Bool.false_eq_true, if_false]
        omega
      · exact ih
      · obtain ⟨handled, empty⟩ := ends_count serde watch ended
        rw [busy] at ih
        rw [handled, empty]
        simp only [isTickEvent, inHand, if_true] at ih ⊢
        omega
      · exact ih
  obtain ⟨fs, reached, heard⟩ := path_run serde parse symbol c played
  rw [fresh] at reached
  -- what was handled came from the wire, each notification at most once
  have conserved := (TickPath.kept_run serde reached).1
  have arrived := congrArg List.length conserved.arrived
  have taken := conserved.counted
  rw [List.length_map, heard] at arrived
  omega

/-! ### Where the prices come from -/

/-- The event brings `mid` into the shared price. -/
def Quotes (mid : Binary64) (e : SystemEvent K) : Prop :=
  ∃ data, e = .feed (.message data) ∧ brings parse symbol (.message data) = some mid

/-- The price that is held was quoted earlier in the run, at the time it is stamped with. -/
theorem held_quoted {now : ℕ} {s t : WatchSystem K} {es : List (SystemEvent K)}
    (fresh : s.feed = CexFeed.starting now none)
    (played : run (step serde parse symbol c) s es = some t) {cp : CexPrice}
    (held : t.feed.state = some cp) :
    Occurs (step serde parse symbol c) s es fun u e =>
      Quotes parse symbol cp.price e ∧ u.feed.now = cp.updatedAt := by
  refine run_history (step serde parse symbol c) s (fun es t => ∀ cp, t.feed.state = some cp →
    Occurs (step serde parse symbol c) s es fun u e =>
      Quotes parse symbol cp.price e ∧ u.feed.now = cp.updatedAt) ?_ ?_ es t played cp held
  · intro cp held
    rw [fresh] at held
    cases held
  · intro es u e v before ih moved cp held
    rw [occurs_concat (step serde parse symbol c) s u es e _ before]
    rcases step_cases serde parse symbol c moved with ⟨e', path, rfl, _, rfl⟩ |
      ⟨e', feed, rfl, stepped, rfl⟩ | ⟨i, update, path, watch, rfl, _, _, _, rfl⟩ |
      ⟨paused, now, watch, rfl, _, rfl⟩
    · exact Or.inl (ih cp held)
    -- a message that brings a price writes it with its own time
    · have written := CexFeed.streamStep_state parse symbol stepped
      cases brought : brings parse symbol e' with
      | none =>
        rw [CexFeed.writes, brought] at written
        exact Or.inl (ih cp (written.symm.trans held))
      | some mid =>
        rw [CexFeed.writes, brought] at written
        obtain rfl := Option.some.inj (written.symm.trans held)
        right
        cases e' with
        | feed e => cases brought
        | message data => exact ⟨⟨data, rfl, brought⟩, rfl⟩
    · exact Or.inl (ih cp held)
    · exact Or.inl (ih cp held)

/-- A tick of the run that works on a notification from the queue priced the row: by the pool
itself, or by a quote that came less than 30 seconds before. -/
def Sourced (start : WatchSystem K) (es : List (SystemEvent K)) (row : PnlRow K) : Prop :=
  ∃ p i q u update pool, es = p ++ .tick i :: q ∧
    run (step serde parse symbol c) start p = some u ∧
    u.path.queue.processor = .busy update ∧
    tickPool c.env.decode update.json i.poolFetch = .ok pool ∧
    (row.price =
        c.env.pricing.sqrtQ64ToUiPrice pool.sqrtPrice.val c.decimalsA c.decimalsB ∨
      ∃ mid, row.price = c.env.pricing.ofF64 mid ∧
        Occurs (step serde parse symbol c) start p fun w e =>
          Quotes parse symbol mid e ∧ u.feed.now < w.feed.now + fromSecs cexStaleSecs)

variable {serde parse symbol c} in
theorem Sourced.concat {start : WatchSystem K} {es : List (SystemEvent K)} {row : PnlRow K}
    (sourced : Sourced serde parse symbol c start es row) (e : SystemEvent K) :
    Sourced serde parse symbol c start (es ++ [e]) row := by
  obtain ⟨p, i, q, u, update, pool, rfl, reached⟩ := sourced
  exact ⟨p, i, q ++ [e], u, update, pool, by simp, reached⟩

theorem tick_sourced {now : ℕ} {start u : WatchSystem K} {es : List (SystemEvent K)}
    {i : TickInput K} {update : Update Machine.JsonValue} {row : PnlRow K}
    (fresh : start.feed = CexFeed.starting now none)
    (before : run (step serde parse symbol c) start es = some u)
    (busy : u.path.queue.processor = .busy update)
    (member : row ∈ WatchState.pnlRows c u.watch (.tick (u.given update i))) :
    Sourced serde parse symbol c start (es ++ [.tick i]) row := by
  obtain ⟨pool, read, priced⟩ := WatchState.pnlRows_price member
  refine ⟨es, i, [], u, update, pool, rfl, before, busy, read, ?_⟩
  rcases resolvePrice_cases c.env.pricing (c.env.pricing.sqrtQ64ToUiPrice pool.sqrtPrice.val
    c.decimalsA c.decimalsB) u.feed.state u.feed.now u.watch.cexWasStale with
    onchain | ⟨cp, held, young, quoted⟩
  · exact Or.inl (priced.trans onchain)
  · obtain ⟨p, e, q, w, rfl, reached, quotes, stamped⟩ :=
      held_quoted serde parse symbol c fresh before held
    refine Or.inr ⟨cp.price, priced.trans quoted, p, e, q, w, rfl, reached, quotes, ?_⟩
    rw [stamped]
    exact young

/-- What a run leaves: every P&L row is sourced, and there are no more rows, decisions and
transactions than there were ticks. -/
structure Followed (start : WatchSystem K) (store : Store K) (es : List (SystemEvent K))
    (t : WatchSystem K) (store' : Store K) : Prop where
  held : t.watch.store = some store'
  sourced : ∀ row ∈ store'.pnlHistory, row ∈ store.pnlHistory ∨
    Sourced serde parse symbol c start es row
  pnlHistory : store'.pnlHistory.length ≤ store.pnlHistory.length + es.countP isTickEvent
  shadow : store'.shadowRebalances.length ≤
    store.shadowRebalances.length + es.countP isTickEvent
  submitted : t.watch.submitted.length ≤
    start.watch.submitted.length + es.countP isTickEvent

theorem followed_run {now : ℕ} {start t : WatchSystem K} {store : Store K}
    {es : List (SystemEvent K)} (fresh : start.feed = CexFeed.starting now none)
    (held : start.watch.store = some store)
    (played : run (step serde parse symbol c) start es = some t) :
    ∃ store', Followed serde parse symbol c start store es t store' := by
  refine run_history (step serde parse symbol c) start (fun es t => ∃ store',
    Followed serde parse symbol c start store es t store') ?_ ?_ es t played
  · exact ⟨store, held, fun row member => Or.inl member, by simp, by simp, by simp⟩
  · rintro es u e v before ⟨store', kept⟩ moved
    obtain ⟨held', sourced, history, shadow, submitted⟩ := kept
    have later : ∀ row ∈ store'.pnlHistory, row ∈ store.pnlHistory ∨
        Sourced serde parse symbol c start (es ++ [e]) row := fun row member =>
      (sourced row member).imp_right fun before => before.concat e
    rcases step_cases serde parse symbol c moved with ⟨e', path, rfl, _, rfl⟩ |
      ⟨e', feed, rfl, _, rfl⟩ | ⟨i, update, path, watch, rfl, busy, ticked, _, rfl⟩ |
      ⟨paused, now, watch, rfl, commanded, rfl⟩
    -- the subscription and the feed write nothing
    · exact ⟨store', held', later, by simpa [isTickEvent] using history,
        by simpa [isTickEvent] using shadow, by simpa [isTickEvent] using submitted⟩
    · exact ⟨store', held', later, by simpa [isTickEvent] using history,
        by simpa [isTickEvent] using shadow, by simpa [isTickEvent] using submitted⟩
    -- a tick adds one row at most to each table, and its row is priced by what it held
    · obtain ⟨last, heldLast, _, grown, added, rows, stamped, _⟩ :=
        WatchState.step_appended held' ticked
      have one := WatchState.pnlRows_length (c := c) (s := u.watch) (u.given update i)
      have ticks : (es ++ [SystemEvent.tick i]).countP isTickEvent = es.countP isTickEvent + 1 := by
        simp [isTickEvent]
      refine ⟨last, heldLast, ?_, ?_, ?_, ?_⟩
      · intro row member
        rw [grown] at member
        rcases List.mem_append.mp member with old | new
        · exact later row old
        · exact Or.inr (tick_sourced serde parse symbol c fresh before busy new)
      · rw [grown, List.length_append, ticks]
        omega
      · have few := stamped.length_le
        rw [List.length_map] at few
        rw [rows, List.length_append, ticks]
        simp only [WatchState.rowTimes, List.length_singleton] at few
        omega
      · rw [ticks]
        have sent := WatchState.step_submitted_length ticked
        simp only [WatchState.isTick, if_true] at sent
        dsimp only
        omega
    -- a command of the operator writes the pause only
    · obtain ⟨last, heldLast, _, grown, added, rows, stamped, _⟩ :=
        WatchState.step_appended held' commanded
      have none : added = [] := by simpa [WatchState.rowTimes] using stamped
      have ticks : (es ++ [SystemEvent.operator (K := K) paused now]).countP isTickEvent =
        es.countP isTickEvent := by simp [isTickEvent]
      refine ⟨last, heldLast, ?_, ?_, ?_, ?_⟩
      · intro row member
        rw [grown] at member
        exact later row (by simpa [WatchState.pnlRows] using member)
      · rw [grown, ticks]
        simpa [WatchState.pnlRows] using history
      · rw [rows, none, ticks]
        simpa using shadow
      · rw [ticks]
        have sent := WatchState.step_submitted_length commanded
        simp only [WatchState.isTick, Bool.false_eq_true, if_false] at sent
        dsimp only
        omega

/-- Subscription, queue, feed and processor together, in any interleaving: a P&L row is sourced,
and no notification makes more than one row, one decision and one transaction. -/
theorem watch_sourced {now nowFeed : ℕ} {start t : WatchSystem K} {store : Store K}
    {es : List (SystemEvent K)} (path : start.path = TickPath.initial now)
    (feed : start.feed = CexFeed.starting nowFeed none) (held : start.watch.store = some store)
    (played : run (step serde parse symbol c) start es = some t) :
    ∃ store', t.watch.store = some store' ∧
      (∀ row ∈ store'.pnlHistory, row ∈ store.pnlHistory ∨
        Sourced serde parse symbol c start es row) ∧
      store'.pnlHistory.length ≤ store.pnlHistory.length + (notified serde es).length ∧
      store'.shadowRebalances.length ≤
        store.shadowRebalances.length + (notified serde es).length ∧
      t.watch.submitted.length ≤ start.watch.submitted.length + (notified serde es).length := by
  obtain ⟨store', held', sourced, history, shadow, submitted⟩ :=
    followed_run serde parse symbol c feed held played
  have few := ticks_le_notified serde parse symbol c path played
  exact ⟨store', held', sourced, by omega, by omega, by omega⟩

end WatchSystem

end System

namespace WatchSystem

def quietSystem : WatchSystem ℚ :=
  ⟨TickPath.initial 0, CexFeed.starting 0 none, quietState (RiskRow.freshState "POOL" 0)⟩

/-- A quote, then a notification that is worked on with it. -/
def oneNotified : List (SystemEvent ℚ) :=
  [.feed (.message ⟨some "SOLUSDT", some "100.0", some "102.0"⟩), .path (.watch .connect),
    .path (.watch .connected), .path (.watch .subscribed),
    .path (.watch (.read (some (.ok (.text TickPath.bareText))) (.ok ()))), .path (.processor .recv),
    .tick quietTick]

theorem watch_sourced_one : ∃ t store',
    run (step TickPath.bareSerde CexFeed.parseQuote "SOLUSDT" (quietConfig .shadow)) quietSystem
      oneNotified = some t ∧
    t.watch.store = some store' ∧ store'.pnlHistory.map PnlRow.price = [101] ∧
    ∀ row ∈ store'.pnlHistory,
      row ∈ (quietStore (RiskRow.freshState "POOL" 0)).pnlHistory ∨
        Sourced TickPath.bareSerde CexFeed.parseQuote "SOLUSDT" (quietConfig .shadow) quietSystem
          oneNotified row := by
  have priced : ((run (step TickPath.bareSerde CexFeed.parseQuote "SOLUSDT"
      (quietConfig .shadow)) quietSystem oneNotified).bind fun t => t.watch.store.map fun store =>
        store.pnlHistory.map PnlRow.price) = some [101] := by decide +kernel
  obtain ⟨t, played, priced⟩ := Option.bind_eq_some_iff.mp priced
  obtain ⟨store', held, price⟩ := Option.map_eq_some_iff.mp priced
  have path : quietSystem.path = TickPath.initial 0 := rfl
  have feed : quietSystem.feed = CexFeed.starting 0 none := rfl
  have started : quietSystem.watch.store =
    some (quietStore (RiskRow.freshState "POOL" 0)) := rfl
  obtain ⟨store'', held', sourced, _⟩ := watch_sourced TickPath.bareSerde CexFeed.parseQuote
    "SOLUSDT" (quietConfig .shadow) path feed started played
  obtain rfl := Option.some.inj (held.symm.trans held')
  exact ⟨t, store', played, held, price, sourced⟩

end WatchSystem

end TickLiq.Watch
