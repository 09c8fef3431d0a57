import TickLiq.Data.AccountWatch
import TickLiq.Watch.TickQueue

/-!
# From the wire to the processor

`watch_account` hands every notification to a callback that only enqueues it, and drops the
callback, and the sender with it, when it returns. Subscription and processor run side by
side, and the queue between them is all they share. At the end the command waits for the
processor, but not for long: what is still in the queue when the runtime is dropped is lost,
as it is when the processor panics.
-/
namespace TickLiq.Watch

open Machine (run run_history JsonValue BoundedChannel tally tally_concat Occurs occurs_concat)
open AccountWatch (SerdeJson WatchEvent WatchPhase heard)
open CexFeed (fromSecs)

/-- What the command waits for. -/
inductive Closing where
  | watchAccount
  /-- `watch_account` has returned. -/
  | processor (since : ℕ)
  /-- The feeds and the bot, for as long as they take. -/
  | otherTasks
  | nothing
deriving DecidableEq

structure TickPath where
  watch : AccountWatch
  queue : TickQueue JsonValue
  closing : Closing
  /-- What was in the queue when its receiver went. -/
  discarded : List (Update JsonValue)

inductive PathEvent where
  | watch (e : WatchEvent)
  | processor (e : TickQueueEvent JsonValue)
  /-- The processor panics, in a tick or before the first one. -/
  | panic
  /-- The processor has ended in time, in whatever way. -/
  | joined
  | timedOut
  /-- The runtime is dropped, and every task that is left with it. -/
  | dropped

namespace TickPath

/-- The grace period of the processor. -/
def drainTimeout : ℕ := fromSecs 5

def initial (now : ℕ) : TickPath :=
  ⟨AccountWatch.initial now, TickQueue.initial, .watchAccount, []⟩

/-- The receiver is gone. -/
def isClosed (queue : TickQueue JsonValue) : Bool :=
  match queue.processor with
  | .exited => true
  | _ => false

/-- `on_notify`: the sender of a closed channel is refused as well. -/
def enqueue (queue : TickQueue JsonValue) : Option JsonValue → TickQueue JsonValue
  | some json =>
    if isClosed queue then { queue with received := queue.received ++ [queue.arriving json] }
    else queue.onNotify json
  | none => queue

/-- The sender goes with the callback. -/
def release (queue : TickQueue JsonValue) : WatchPhase → TickQueue JsonValue
  | .exited => { queue with senderLive := false }
  | _ => queue

def afterWatch (closing : Closing) (watch : AccountWatch) : Closing :=
  match watch.phase, closing with
  | .exited, .watchAccount => .processor watch.now
  | _, closing => closing

/-- The receiver goes, and what it holds with it. -/
def cut (s : TickPath) : TickPath := { s with
  queue := { s.queue with channel := .empty, processor := .exited }
  discarded := s.discarded ++ s.queue.pending }

section Path

variable (serde : SerdeJson)

def step (s : TickPath) : PathEvent → Option TickPath
  | .watch e => (AccountWatch.step serde s.watch e).map fun watch => { s with
      watch
      queue := release (enqueue s.queue (heard serde e)) watch.phase
      closing := afterWatch s.closing watch }
  | .processor .recv => (s.queue.step .recv).map fun queue => { s with queue }
  | .processor .finish => (s.queue.step .finish).map fun queue => { s with queue }
  | .processor .exit => (s.queue.step .exit).map fun queue => { s with queue }
  -- the other end of the queue is moved by the subscription alone
  | .processor _ => none
  | .panic => if isClosed s.queue then none else some s.cut
  | .joined =>
    match s.closing with
    | .processor _ => if isClosed s.queue then some { s with closing := .otherTasks } else none
    | _ => none
  -- the timeout looks at the processor first, and may itself be late
  | .timedOut =>
    match s.closing with
    | .processor since =>
      if isClosed s.queue = false ∧ since + drainTimeout ≤ s.watch.now then
        some { s with closing := .otherTasks }
      else none
    | _ => none
  | .dropped =>
    match s.closing with
    | .otherTasks => some { s.cut with closing := .nothing }
    | _ => none

/-- What each enabled event does. -/
inductive Moves (s : TickPath) : PathEvent → TickPath → Prop where
  | watch (e : WatchEvent) (watch : AccountWatch)
      (stepped : AccountWatch.step serde s.watch e = some watch) :
    Moves s (.watch e) { s with
      watch
      queue := release (enqueue s.queue (heard serde e)) watch.phase
      closing := afterWatch s.closing watch }
  | recv (update : Update JsonValue) (channel : BoundedChannel (Update JsonValue) 64)
      (idle : s.queue.processor = .idle) (taken : s.queue.pending = update :: channel.queue) :
    Moves s (.processor .recv) { s with queue := { s.queue with
      channel
      processor := .busy update
      handled := s.queue.handled ++ [update] } }
  | finish (update : Update JsonValue) (busy : s.queue.processor = .busy update) :
    Moves s (.processor .finish) { s with queue := { s.queue with processor := .idle } }
  | exit (idle : s.queue.processor = .idle) (empty : s.queue.pending = [])
      (gone : s.queue.senderLive = false) :
    Moves s (.processor .exit) { s with queue := { s.queue with processor := .exited } }
  | panic (opened : isClosed s.queue = false) : Moves s .panic s.cut
  | joined (since : ℕ) (waits : s.closing = .processor since) (closed : isClosed s.queue = true) :
    Moves s .joined { s with closing := .otherTasks }
  | timedOut (since : ℕ) (waits : s.closing = .processor since)
      (opened : isClosed s.queue = false) (late : since + drainTimeout ≤ s.watch.now) :
    Moves s .timedOut { s with closing := .otherTasks }
  | dropped (waits : s.closing = .otherTasks) :
    Moves s .dropped { s.cut with closing := .nothing }

variable {start s t : TickPath} {e : PathEvent} {es : List PathEvent}

theorem step_moves (moved : step serde s e = some t) : Moves serde s e t := by
  unfold step at moved
  split at moved
  next e =>
    obtain ⟨watch, stepped, rfl⟩ := Option.map_eq_some_iff.mp moved
    exact .watch e watch stepped
  next =>
    -- of the moves of the queue only the matching one is possible
    obtain ⟨queue, stepped, rfl⟩ := Option.map_eq_some_iff.mp moved
    rcases TickQueue.step_cases stepped with ⟨_, _, ⟨⟩, _⟩ | ⟨_, ⟨⟩, _⟩ | ⟨⟨⟩, _⟩ |
      ⟨update, channel, _, idle, taken, rfl⟩ | ⟨_, ⟨⟩, _⟩ | ⟨⟨⟩, _⟩
    exact .recv update channel idle taken
  next =>
    obtain ⟨queue, stepped, rfl⟩ := Option.map_eq_some_iff.mp moved
    rcases TickQueue.step_cases stepped with ⟨_, _, ⟨⟩, _⟩ | ⟨_, ⟨⟩, _⟩ | ⟨⟨⟩, _⟩ |
      ⟨_, _, ⟨⟩, _⟩ | ⟨update, _, busy, rfl⟩ | ⟨⟨⟩, _⟩
    exact .finish update busy
  next =>
    obtain ⟨queue, stepped, rfl⟩ := Option.map_eq_some_iff.mp moved
    rcases TickQueue.step_cases stepped with ⟨_, _, ⟨⟩, _⟩ | ⟨_, ⟨⟩, _⟩ | ⟨⟨⟩, _⟩ |
      ⟨_, _, ⟨⟩, _⟩ | ⟨_, ⟨⟩, _⟩ | ⟨_, idle, empty, gone, rfl⟩
    exact .exit idle empty gone
  next => cases moved
  next =>
    split at moved <;> cases moved
    next opened => exact .panic (Bool.eq_false_iff.mpr opened)
  next =>
    split at moved
    next since waits =>
      split at moved <;> cases moved
      next closed => exact .joined since waits closed
    next => cases moved
  next =>
    split at moved
    next since waits =>
      split at moved <;> cases moved
      next both => exact .timedOut since waits both.1 both.2
    next => cases moved
  next =>
    split at moved <;> cases moved
    next waits => exact .dropped waits

/-! ### The books -/

/-- The notification that an event takes off the wire. -/
def wire : PathEvent → Option JsonValue
  | .watch e => heard serde e
  | _ => none

/-- A notification that meets a full queue. -/
def metFull (s : TickPath) (e : PathEvent) : Bool :=
  (wire serde e).isSome && decide (s.queue.pending.length = 64)

/-- A notification that finds the processor gone. -/
def metClosed (s : TickPath) (e : PathEvent) : Bool := (wire serde e).isSome && isClosed s.queue

def turnedAway (start : TickPath) (es : List PathEvent) : ℕ :=
  tally (step serde) (metFull serde) start es + tally (step serde) (metClosed serde) start es

/-- Nothing comes into being between the wire and the processor, and nothing is lost unseen. -/
structure Conserved (es : List PathEvent) (start s : TickPath) : Prop where
  notified : s.watch.notified = es.filterMap (wire serde)
  arrived : s.queue.received.map Update.json = es.filterMap (wire serde)
  numbered : s.queue.received.map Update.seq = List.range s.queue.received.length
  ordered : (s.queue.handled ++ s.discarded ++ s.queue.pending).Sublist s.queue.received
  counted : s.queue.handled.length + s.queue.pending.length + s.discarded.length +
    turnedAway serde start es = s.queue.received.length
  opened : isClosed s.queue = false → s.discarded = []
  closed : isClosed s.queue = true → s.queue.pending = []

omit serde in
@[simp] theorem release_eq (queue : TickQueue JsonValue) (phase : WatchPhase) :
    (release queue phase).received = queue.received ∧
      (release queue phase).handled = queue.handled ∧
      (release queue phase).pending = queue.pending ∧
      (release queue phase).processor = queue.processor := by
  cases phase <;> exact ⟨rfl, rfl, rfl, rfl⟩

omit serde in
theorem isClosed_eq {queue queue' : TickQueue JsonValue}
    (same : queue.processor = queue'.processor) : isClosed queue = isClosed queue' := by
  unfold isClosed
  rw [same]

omit serde in
/-- Where a notification arrives, it is enqueued, or the queue was full or closed. -/
theorem enqueue_cases (queue : TickQueue JsonValue) (json : JsonValue) :
    (enqueue queue (some json)).handled = queue.handled ∧
      (enqueue queue (some json)).processor = queue.processor ∧
      (enqueue queue (some json)).senderLive = queue.senderLive ∧
      (enqueue queue (some json)).received = queue.received ++ [queue.arriving json] ∧
      (isClosed queue = false ∧ queue.pending.length < 64 ∧
          (enqueue queue (some json)).pending = queue.pending ++ [queue.arriving json] ∨
        (isClosed queue = true ∨ queue.pending.length = 64) ∧
          (enqueue queue (some json)).pending = queue.pending) := by
  simp only [enqueue, TickQueue.onNotify]
  cases closed : isClosed queue with
  | true => exact ⟨rfl, rfl, rfl, rfl, Or.inr ⟨Or.inl rfl, rfl⟩⟩
  | false =>
    simp only [Bool.false_eq_true, if_false]
    cases sent : queue.channel.trySend (queue.arriving json) with
    | some channel =>
      obtain ⟨room, grown⟩ := BoundedChannel.trySend_some sent
      exact ⟨rfl, rfl, rfl, rfl, Or.inl ⟨trivial, room, grown⟩⟩
    | none =>
      exact ⟨rfl, rfl, rfl, rfl, Or.inr ⟨Or.inr (BoundedChannel.trySend_none_iff.mp sent), rfl⟩⟩

/-- An event that takes nothing off the wire changes nothing in the books. -/
theorem Conserved.skip (kept : Conserved serde es start s)
    (before : run (step serde) start es = some s) (silent : wire serde e = none) :
    Conserved serde (es ++ [e]) start s := by
  obtain ⟨notified, arrived, numbered, ordered, counted, opened, closed⟩ := kept
  have full := tally_concat (step serde) (metFull serde) e before
  have shut := tally_concat (step serde) (metClosed serde) e before
  simp only [metFull, metClosed, silent, Option.isSome_none, Bool.false_and, Bool.false_eq_true,
    if_false, Nat.add_zero] at full shut
  have quiet : (es ++ [e]).filterMap (wire serde) = es.filterMap (wire serde) := by
    simp [List.filterMap_append, silent]
  refine ⟨by rw [quiet]; exact notified, by rw [quiet]; exact arrived, numbered, ordered, ?_,
    opened, closed⟩
  rw [turnedAway, full, shut]
  exact counted

theorem conserved_watch {e : WatchEvent} {watch : AccountWatch} (kept : Conserved serde es start s)
    (before : run (step serde) start es = some s)
    (stepped : AccountWatch.step serde s.watch e = some watch) :
    Conserved serde (es ++ [.watch e]) start { s with
      watch
      queue := release (enqueue s.queue (heard serde e)) watch.phase
      closing := afterWatch s.closing watch } := by
  have skipped : wire serde (.watch e) = none → Conserved serde (es ++ [.watch e]) start s :=
    kept.skip serde before
  obtain ⟨notified, arrived, numbered, ordered, counted, opened, closed⟩ := kept
  obtain ⟨received, handled, pending, processor⟩ :=
    release_eq (enqueue s.queue (heard serde e)) watch.phase
  have same := isClosed_eq processor
  have noted : watch.notified = (es ++ [PathEvent.watch e]).filterMap (wire serde) := by
    rw [AccountWatch.step_notified serde stepped, notified, List.filterMap_append]
    cases brought : heard serde e <;> simp [wire, brought]
  cases brought : heard serde e with
  | none =>
    have kept := skipped brought
    rw [brought] at received handled pending same
    refine ⟨noted, ?_, ?_, ?_, ?_, ?_, ?_⟩
    · rw [received]
      exact kept.arrived
    · rw [received]
      exact numbered
    · rw [received, handled, pending]
      exact ordered
    · rw [received, handled, pending]
      exact kept.counted
    · rw [same]
      exact opened
    · rw [same, pending]
      exact closed
  | some json =>
    obtain ⟨sameHandled, sameProcessor, _, grown, found⟩ := enqueue_cases s.queue json
    rw [brought] at received handled pending same
    have still := same.trans (isClosed_eq sameProcessor)
    refine ⟨noted, ?_, ?_, ?_, ?_, ?_, ?_⟩
    · rw [received, grown, List.map_append, List.filterMap_append, arrived]
      simp [wire, brought, TickQueue.arriving]
    · rw [received, grown, List.map_append, numbered, List.length_append, List.length_singleton,
        List.range_succ]
      rfl
    · rw [received, handled, pending, sameHandled, grown]
      rcases found with ⟨_, _, joined⟩ | ⟨_, unchanged⟩
      · rw [joined, ← List.append_assoc]
        exact ordered.append_right _
      · rw [unchanged]
        exact ordered.trans (List.sublist_append_left ..)
    · have full := tally_concat (step serde) (metFull serde) (.watch e) before
      have shut := tally_concat (step serde) (metClosed serde) (.watch e) before
      simp only [metFull, metClosed, wire, brought, Option.isSome_some, Bool.true_and,
        decide_eq_true_eq] at full shut
      rw [received, handled, pending, sameHandled, grown, List.length_append,
        List.length_singleton, ← counted]
      simp only [turnedAway] at full shut ⊢
      rw [full, shut]
      rcases found with ⟨open', room, joined⟩ | ⟨away, unchanged⟩
      · rw [joined, open', if_neg (Nat.ne_of_lt room), List.length_append, List.length_singleton]
        simp only [Bool.false_eq_true, if_false]
        omega
      · -- a closed queue is empty, so that no notification is counted twice
        rw [unchanged]
        cases shut' : isClosed s.queue with
        | true =>
          have empty := closed shut'
          rw [empty]
          simp only [List.length_nil, if_true, if_false, Nat.reduceEqDiff]
          omega
        | false =>
          rw [if_pos (away.resolve_left (by simp [shut']))]
          simp only [Bool.false_eq_true, if_false]
          omega
    · rw [still]
      exact opened
    · rw [still, pending]
      intro shut
      rcases found with ⟨open', _⟩ | ⟨_, unchanged⟩
      · rw [shut] at open'
        cases open'
      · rw [unchanged]
        exact closed shut

/-- Where the receiver goes, what waited is counted among the discarded. -/
theorem Conserved.cut (kept : Conserved serde es start s) (closing : Closing) :
    Conserved serde es start { s.cut with closing } := by
  obtain ⟨notified, arrived, numbered, ordered, counted, _, _⟩ := kept
  refine ⟨notified, arrived, numbered, ?_, ?_, by rintro ⟨⟩, fun _ => rfl⟩
  · simpa [TickPath.cut, TickQueue.pending, BoundedChannel.empty] using ordered
  · simp only [TickPath.cut, List.length_append, TickQueue.pending, BoundedChannel.empty,
      List.length_nil]
    simp only [TickQueue.pending] at counted
    omega

theorem conserved_step (kept : Conserved serde es start s)
    (before : run (step serde) start es = some s) (moved : step serde s e = some t) :
    Conserved serde (es ++ [e]) start t := by
  cases step_moves serde moved with
  | watch e watch stepped => exact conserved_watch serde kept before stepped
  | panic opened =>
    have skipped := kept.skip serde (e := .panic) before rfl
    exact skipped.cut serde s.closing
  | dropped waits =>
    have skipped := kept.skip serde (e := .dropped) before rfl
    exact skipped.cut serde .nothing
  | joined =>
    have skipped := kept.skip serde (e := .joined) before rfl
    exact ⟨skipped.1, skipped.2, skipped.3, skipped.4, skipped.5, skipped.6, skipped.7⟩
  | timedOut =>
    have skipped := kept.skip serde (e := .timedOut) before rfl
    exact ⟨skipped.1, skipped.2, skipped.3, skipped.4, skipped.5, skipped.6, skipped.7⟩
  | recv update channel idle taken =>
    obtain ⟨notified, arrived, numbered, ordered, counted, opened, closed⟩ :=
      kept.skip serde (e := .processor .recv) before rfl
    -- a processor that works has dropped nothing so far
    have nothing : s.discarded = [] := opened (by rw [isClosed, idle])
    refine ⟨notified, arrived, numbered, ?_, ?_, fun _ => nothing, by rintro ⟨⟩⟩
    · rw [nothing, taken] at ordered
      simpa [nothing, TickQueue.pending] using ordered
    · rw [← counted, taken]
      simp only [List.length_append, List.length_cons, List.length_nil, TickQueue.pending]
      omega
  | finish update busy =>
    obtain ⟨notified, arrived, numbered, ordered, counted, opened, closed⟩ :=
      kept.skip serde (e := .processor .finish) before rfl
    have nothing : s.discarded = [] := opened (by rw [isClosed, busy])
    exact ⟨notified, arrived, numbered, ordered, counted, fun _ => nothing, by rintro ⟨⟩⟩
  | exit idle empty gone =>
    obtain ⟨notified, arrived, numbered, ordered, counted, opened, closed⟩ :=
      kept.skip serde (e := .processor .exit) before rfl
    exact ⟨notified, arrived, numbered, ordered, counted, by rintro ⟨⟩, fun _ => empty⟩

/-! ### The end -/

/-- `watch_account` returns at `now`. -/
def Returns (now : ℕ) (s : TickPath) (e : PathEvent) : Prop :=
  s.watch.phase ≠ .exited ∧
    ∃ t, step serde s e = some t ∧ t.watch.phase = .exited ∧ t.watch.now = now

/-- The command goes on without the processor: it has not ended, and `watch_account` returned
five seconds ago or earlier. -/
def GivenUp (start : TickPath) (es : List PathEvent) : Prop :=
  ∃ p q u since, es = p ++ .timedOut :: q ∧ run (step serde) start p = some u ∧
    Occurs (step serde) start p (Returns serde since) ∧
    isClosed u.queue = false ∧ since + drainTimeout ≤ u.watch.now

/-- How far the end has come, and why. -/
structure Ending (es : List PathEvent) (start s : TickPath) : Prop where
  sender : s.queue.senderLive = false ↔ s.watch.phase = .exited
  watching : s.closing = .watchAccount ↔ s.watch.phase ≠ .exited
  waiting : ∀ since, s.closing = .processor since →
    Occurs (step serde) start es (Returns serde since)
  waited : s.closing = .otherTasks → isClosed s.queue = true ∨ GivenUp serde start es
  gone : isClosed s.queue = true → s.watch.phase = .exited ∨ .panic ∈ es
  lost : s.discarded ≠ [] → .panic ∈ es ∨ GivenUp serde start es
  refused : tally (step serde) (metClosed serde) start es ≠ 0 → .panic ∈ es

variable {serde} in
theorem GivenUp.concat (given : GivenUp serde start es) (e : PathEvent) :
    GivenUp serde start (es ++ [e]) := by
  obtain ⟨p, q, u, since, rfl, reached⟩ := given
  exact ⟨p, q ++ [e], u, since, by simp, reached⟩

/-- What has been said of a run is still true when it goes on. -/
theorem Ending.later (kept : Ending serde es start s)
    (before : run (step serde) start es = some s)
    (apart : metClosed serde s e = true → .panic ∈ es) : Ending serde (es ++ [e]) start s := by
  obtain ⟨sender, watching, waiting, waited, gone, lost, refused⟩ := kept
  refine ⟨sender, watching, ?_, fun left => (waited left).imp_right fun given => given.concat e,
    fun closed => (gone closed).imp_right (List.mem_append_left _),
    fun some => (lost some).imp (List.mem_append_left _) fun given => given.concat e, ?_⟩
  · intro since waits
    exact (occurs_concat _ _ _ _ _ _ before).mpr (Or.inl (waiting since waits))
  · rw [tally_concat (step serde) (metClosed serde) e before]
    intro counted
    apply List.mem_append_left
    by_cases met : metClosed serde s e = true
    · exact apart met
    · rw [if_neg met] at counted
      exact refused counted

omit serde in
theorem release_sender {queue : TickQueue JsonValue} {phase : WatchPhase}
    (live : queue.senderLive = true ∨ phase = .exited) :
    (release queue phase).senderLive = false ↔ phase = .exited := by
  cases phase <;> simp_all [release]

omit serde in
theorem enqueue_ends (queue : TickQueue JsonValue) (json : Option JsonValue) :
    (enqueue queue json).handled = queue.handled ∧
      (enqueue queue json).processor = queue.processor ∧
      (enqueue queue json).senderLive = queue.senderLive := by
  cases json with
  | none => exact ⟨rfl, rfl, rfl⟩
  | some json =>
    obtain ⟨handled, processor, sender, _⟩ := enqueue_cases queue json
    exact ⟨handled, processor, sender⟩

theorem ending_watch {e : WatchEvent} {watch : AccountWatch} (kept : Ending serde es start s)
    (before : run (step serde) start es = some s)
    (stepped : AccountWatch.step serde s.watch e = some watch)
    (moved : step serde s (.watch e) = some { s with
      watch
      queue := release (enqueue s.queue (heard serde e)) watch.phase
      closing := afterWatch s.closing watch }) :
    Ending serde (es ++ [.watch e]) start { s with
      watch
      queue := release (enqueue s.queue (heard serde e)) watch.phase
      closing := afterWatch s.closing watch } := by
  -- after it has returned nothing is heard any more
  have silenced : s.watch.phase = .exited → watch.phase = .exited ∧ heard serde e = none :=
    fun exited => AccountWatch.step_exited serde exited stepped
  have later := kept.later serde before (e := .watch e) (by
    intro met
    simp only [metClosed, wire, Bool.and_eq_true] at met
    refine (kept.gone met.2).resolve_left fun exited => ?_
    rw [(silenced exited).2] at met
    cases met.1)
  obtain ⟨sender, watching, waiting, waited, gone, lost, refused⟩ := later
  obtain ⟨_, processor, live⟩ := enqueue_ends s.queue (heard serde e)
  have same : isClosed (release (enqueue s.queue (heard serde e)) watch.phase) =
      isClosed s.queue :=
    isClosed_eq ((release_eq _ _).2.2.2.trans processor)
  have unsent : (enqueue s.queue (heard serde e)).senderLive = true ∨ watch.phase = .exited := by
    rw [live]
    cases held : s.queue.senderLive with
    | true => exact Or.inl rfl
    | false => exact Or.inr (silenced (sender.mp held)).1
  -- the command's place changes when `watch_account` returns, and then only
  by_cases returns : watch.phase = .exited ∧ s.closing = .watchAccount
  · obtain ⟨exited, waits⟩ := returns
    have next : afterWatch s.closing watch = .processor watch.now := by
      simp [afterWatch, exited, waits]
    rw [next] at moved ⊢
    refine ⟨release_sender unsent, by simp [exited], ?_, by rintro ⟨⟩, fun _ => Or.inl exited, lost,
      refused⟩
    rintro _ ⟨⟩
    exact (occurs_concat _ _ _ _ _ _ before).mpr
      (Or.inr ⟨watching.mp waits, _, moved, exited, rfl⟩)
  · have stays : afterWatch s.closing watch = s.closing := by
      unfold afterWatch
      split
      next exited waits => exact absurd ⟨exited, waits⟩ returns
      next => rfl
    rw [stays]
    refine ⟨release_sender unsent, ?_, waiting, by rwa [same], ?_, lost, refused⟩
    · rw [watching, not_iff_not]
      exact ⟨fun exited => (silenced exited).1, fun exited => by
        by_contra up
        exact returns ⟨exited, watching.mpr up⟩⟩
    · rw [same]
      exact fun closed => (gone closed).imp_left fun exited => (silenced exited).1

theorem ending_step (books : Conserved serde es start s) (kept : Ending serde es start s)
    (before : run (step serde) start es = some s) (moved : step serde s e = some t) :
    Ending serde (es ++ [e]) start t := by
  cases step_moves serde moved with
  | watch e watch stepped => exact ending_watch serde kept before stepped moved
  | panic opened =>
    obtain ⟨sender, watching, waiting, waited, gone, lost, refused⟩ :=
      kept.later serde (e := .panic) before (by rintro ⟨⟩)
    have panicked : PathEvent.panic ∈ es ++ [.panic] := List.mem_append_right _ (by simp)
    exact ⟨sender, watching, waiting, fun _ => Or.inl rfl, fun _ => Or.inr panicked,
      fun _ => Or.inl panicked, refused⟩
  | joined since waits closed =>
    obtain ⟨sender, watching, waiting, waited, gone, lost, refused⟩ :=
      kept.later serde (e := .joined) before (by rintro ⟨⟩)
    rw [waits] at watching
    exact ⟨sender, by simpa using watching, by rintro _ ⟨⟩, fun _ => Or.inl closed, gone, lost,
      refused⟩
  | timedOut since waits opened late =>
    obtain ⟨sender, watching, waiting, waited, gone, lost, refused⟩ :=
      kept.later serde (e := .timedOut) before (by rintro ⟨⟩)
    rw [waits] at watching
    exact ⟨sender, by simpa using watching, by rintro _ ⟨⟩,
      fun _ => Or.inr ⟨es, [], s, since, rfl, before, kept.waiting since waits, opened, late⟩,
      gone, lost, refused⟩
  | dropped waits =>
    obtain ⟨sender, watching, waiting, waited, gone, lost, refused⟩ :=
      kept.later serde (e := .dropped) before (by rintro ⟨⟩)
    rw [waits] at watching
    have exited : s.watch.phase = .exited := by simpa using watching
    refine ⟨sender, by simpa [cut] using exited, by rintro _ ⟨⟩, by rintro ⟨⟩,
      fun _ => Or.inl exited, ?_, refused⟩
    intro left
    rcases waited waits with closed | given
    · -- nothing is left in the queue of a processor that has ended
      have empty := books.closed closed
      exact lost (by simpa [cut, empty] using left)
    · exact Or.inr given
  | recv update channel idle taken =>
    obtain ⟨sender, watching, waiting, waited, gone, lost, refused⟩ :=
      kept.later serde (e := .processor .recv) before (by rintro ⟨⟩)
    have opened : isClosed s.queue = false := by rw [isClosed, idle]
    rw [opened] at waited
    exact ⟨sender, watching, waiting, fun left => Or.inr ((waited left).resolve_left (by simp)),
      by rintro ⟨⟩, lost, refused⟩
  | finish update busy =>
    obtain ⟨sender, watching, waiting, waited, gone, lost, refused⟩ :=
      kept.later serde (e := .processor .finish) before (by rintro ⟨⟩)
    have opened : isClosed s.queue = false := by rw [isClosed, busy]
    rw [opened] at waited
    exact ⟨sender, watching, waiting, fun left => Or.inr ((waited left).resolve_left (by simp)),
      by rintro ⟨⟩, lost, refused⟩
  | exit idle empty hungUp =>
    obtain ⟨sender, watching, waiting, waited, gone, lost, refused⟩ :=
      kept.later serde (e := .processor .exit) before (by rintro ⟨⟩)
    exact ⟨sender, watching, waiting, fun _ => Or.inl rfl, fun _ => Or.inl (sender.mp hungUp), lost,
      refused⟩

theorem kept_run {now : ℕ} (played : run (step serde) (initial now) es = some t) :
    Conserved serde es (initial now) t ∧ Ending serde es (initial now) t := by
  refine run_history _ _ (fun es t => Conserved serde es (initial now) t ∧
    Ending serde es (initial now) t) ?_ ?_ es t played
  · refine ⟨⟨rfl, rfl, rfl, List.Sublist.refl _, rfl, fun _ => rfl, fun _ => rfl⟩, ?_⟩
    refine ⟨?_, ?_, by rintro _ ⟨⟩, by rintro ⟨⟩, by rintro ⟨⟩, fun some => absurd rfl some,
      fun counted => absurd rfl counted⟩
    · simp [initial, TickQueue.initial, AccountWatch.initial]
    · simp [initial, AccountWatch.initial]
  · rintro es u e v before ⟨books, kept⟩ moved
    exact ⟨conserved_step serde books before moved, ending_step serde books kept before moved⟩

/-- The processor handles notifications from the wire, in their order and none twice, and each of
them is accounted for. It ends when it panics, or after the subscription has ended; and only a
panic, or a processor that takes over five seconds for what is left, costs what is waiting. -/
theorem handled_from_wire {now : ℕ} (played : run (step serde) (initial now) es = some t) :
    t.watch.notified = es.filterMap (wire serde) ∧
      (t.queue.handled.map Update.json).Sublist t.watch.notified ∧
      (t.queue.handled.map Update.seq).Pairwise (· < ·) ∧
      t.queue.handled.length + t.queue.pending.length + t.discarded.length +
        (tally (step serde) (metFull serde) (initial now) es +
          tally (step serde) (metClosed serde) (initial now) es) = t.watch.notified.length ∧
      (isClosed t.queue = true →
        t.queue.pending = [] ∧ (t.watch.phase = .exited ∨ .panic ∈ es)) ∧
      (tally (step serde) (metClosed serde) (initial now) es ≠ 0 → .panic ∈ es) ∧
      (t.discarded ≠ [] → .panic ∈ es ∨ GivenUp serde (initial now) es) := by
  obtain ⟨⟨notified, arrived, numbered, ordered, counted, opened, closed⟩, kept⟩ :=
    kept_run serde played
  -- handled updates stand at the front of what was received
  have handled : t.queue.handled.Sublist t.queue.received :=
    ((List.sublist_append_left ..).trans (List.sublist_append_left ..)).trans ordered
  refine ⟨notified, ?_, ?_, ?_, fun shut => ⟨closed shut, kept.gone shut⟩, kept.refused, kept.lost⟩
  · rw [notified, ← arrived]
    exact handled.map _
  -- the sequence number counts the received ones
  · have increasing : (t.queue.received.map Update.seq).Pairwise (· < ·) := by
      rw [numbered]
      exact List.pairwise_lt_range
    exact increasing.sublist (handled.map _)
  · rw [notified, ← arrived, List.length_map]
    exact counted

end Path

/-- A notification without content. -/
def bareText : String := "\x7b\"method\":\"accountNotification\"\x7d"

def bareSerde : SerdeJson where
  fromStr text :=
    if text = bareText then .ok (.object [("method", .string "accountNotification")])
    else .error "expected value"
  toString _ := "null"

def bareNotification : PathEvent := .watch (.read (some (.ok (.text bareText))) (.ok ()))

/-- Three notifications, of which the first is still being worked on when the end comes. -/
def cutOff : List PathEvent :=
  [.watch .connect, .watch .connected, .watch .subscribed, bareNotification, .processor .recv,
    bareNotification, bareNotification, .watch .shutdown, .watch (.elapse (fromSecs 5)), .timedOut,
    .dropped]

theorem handled_from_wire_cut :
    ∃ t, run (step bareSerde) (initial 0) cutOff = some t ∧
      t.queue.handled.length = 1 ∧ t.discarded.length = 2 ∧
      (t.queue.handled.map Update.json).Sublist t.watch.notified ∧
      t.queue.handled.length + t.queue.pending.length + t.discarded.length +
        (tally (step bareSerde) (metFull bareSerde) (initial 0) cutOff +
          tally (step bareSerde) (metClosed bareSerde) (initial 0) cutOff) =
            t.watch.notified.length ∧
      (.panic ∈ cutOff ∨ GivenUp bareSerde (initial 0) cutOff) := by
  have ended : (run (step bareSerde) (initial 0) cutOff).map
      (fun t => (t.queue.handled.length, t.discarded.length)) = some (1, 2) := by decide +kernel
  obtain ⟨t, played, counts⟩ := Option.map_eq_some_iff.mp ended
  obtain ⟨handled, discarded⟩ := Prod.mk.inj counts
  have result := handled_from_wire bareSerde played
  have lost : t.discarded ≠ [] := by
    intro none
    rw [none] at discarded
    cases discarded
  exact ⟨t, played, handled, discarded, result.2.1, result.2.2.2.1, result.2.2.2.2.2.2 lost⟩

end TickPath

end TickLiq.Watch
