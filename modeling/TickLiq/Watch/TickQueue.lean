import TickLiq.Machine.BoundedChannel
import TickLiq.Machine.Loop
import TickLiq.Machine.Run

/-!
# The tick queue of the watch loop

Notifications pass through a bounded channel to the processor. A full queue turns the
arriving notification away and keeps the ones it has, so a processor that falls behind
works off the oldest updates first, and the newest are the ones it never sees.
-/
namespace TickLiq.Watch

open Machine (run run_cons_some run_concat_some BoundedChannel forall_split_concat)

/-- A notification, told apart from the others by how many came before it. -/
structure Update (Json : Type) where
  seq : ℕ
  json : Json
deriving DecidableEq

inductive TickProcessor (Json : Type) where
  | idle
  | busy (update : Update Json)
  | exited
deriving DecidableEq

/-- The channel and its two ends, with the books of what arrived and what was taken. -/
structure TickQueue (Json : Type) where
  channel : BoundedChannel (Update Json) 64
  processor : TickProcessor Json
  senderLive : Bool
  handled : List (Update Json)
  received : List (Update Json)
deriving DecidableEq

inductive TickQueueEvent (Json : Type) where
  | notify (json : Json)
  /-- `watch_account` has returned and dropped the sender. -/
  | hangUp
  | recv
  | finish
  | exit
deriving DecidableEq

namespace TickQueue

variable {Json : Type}

def initial : TickQueue Json := ⟨.empty, .idle, true, [], []⟩

def arriving (s : TickQueue Json) (json : Json) : Update Json := ⟨s.received.length, json⟩

/-- `on_notify`: what does not fit is dropped with a warning. -/
def onNotify (s : TickQueue Json) (json : Json) : TickQueue Json :=
  match s.channel.trySend (s.arriving json) with
  | some channel => { s with channel, received := s.received ++ [s.arriving json] }
  | none => { s with received := s.received ++ [s.arriving json] }

def step (s : TickQueue Json) : TickQueueEvent Json → Option (TickQueue Json)
  | .notify json => if s.senderLive then some (s.onNotify json) else none
  | .hangUp => if s.senderLive then some { s with senderLive := false } else none
  | .recv =>
    match s.processor, s.channel.recv with
    | .idle, some (update, channel) =>
      some { s with channel, processor := .busy update, handled := s.handled ++ [update] }
    | _, _ => none
  | .finish =>
    match s.processor with
    | .busy _ => some { s with processor := .idle }
    | _ => none
  | .exit =>
    -- `recv` returns nothing once the sender is gone and the queue is empty
    match s.processor, s.channel.recv with
    | .idle, none => if s.senderLive then none else some { s with processor := .exited }
    | _, _ => none

def pending (s : TickQueue Json) : List (Update Json) := s.channel.queue

/-- What each enabled step does. -/
theorem step_cases {s t : TickQueue Json} {e : TickQueueEvent Json} (moved : s.step e = some t) :
    (∃ json channel, e = .notify json ∧ s.senderLive = true ∧ s.pending.length < 64 ∧
      channel.queue = s.pending ++ [s.arriving json] ∧
      t = { s with channel, received := s.received ++ [s.arriving json] }) ∨
    (∃ json, e = .notify json ∧ s.senderLive = true ∧ s.pending.length = 64 ∧
      t = { s with received := s.received ++ [s.arriving json] }) ∨
    (e = .hangUp ∧ s.senderLive = true ∧ t = { s with senderLive := false }) ∨
    (∃ update channel, e = .recv ∧ s.processor = .idle ∧ s.pending = update :: channel.queue ∧
      t = { s with channel, processor := .busy update, handled := s.handled ++ [update] }) ∨
    (∃ update, e = .finish ∧ s.processor = .busy update ∧ t = { s with processor := .idle }) ∨
    (e = .exit ∧ s.processor = .idle ∧ s.pending = [] ∧ s.senderLive = false ∧
      t = { s with processor := .exited }) := by
  cases e with
  | notify json =>
    simp only [step] at moved
    split at moved
    next live =>
      cases moved
      simp only [onNotify]
      -- try_send takes the update or drops it, and the callback goes on either way
      cases sent : s.channel.trySend (s.arriving json) with
      | some channel =>
        obtain ⟨room, queue⟩ := BoundedChannel.trySend_some sent
        exact Or.inl ⟨json, channel, rfl, live, room, queue, rfl⟩
      | none =>
        exact Or.inr (Or.inl ⟨json, rfl, live, BoundedChannel.trySend_none_iff.mp sent, rfl⟩)
    next => cases moved
  | hangUp =>
    simp only [step] at moved
    split at moved
    next live =>
      cases moved
      exact Or.inr (Or.inr (Or.inl ⟨rfl, live, rfl⟩))
    next => cases moved
  | recv =>
    simp only [step] at moved
    split at moved
    next update channel idle taken =>
      cases moved
      exact Or.inr (Or.inr (Or.inr (Or.inl
        ⟨update, channel, rfl, idle, BoundedChannel.recv_some taken, rfl⟩)))
    next => cases moved
  | finish =>
    simp only [step] at moved
    split at moved
    next update busy =>
      cases moved
      exact Or.inr (Or.inr (Or.inr (Or.inr (Or.inl ⟨update, rfl, busy, rfl⟩))))
    next => cases moved
  | exit =>
    simp only [step] at moved
    split at moved
    next idle empty =>
      -- the receiver ends only when the queue is empty and the last sender gone
      split at moved
      next => cases moved
      next gone =>
        cases moved
        exact Or.inr (Or.inr (Or.inr (Or.inr (Or.inr ⟨rfl, idle,
          BoundedChannel.recv_none_iff.mp empty, Bool.eq_false_iff.mpr gone, rfl⟩))))
    next => cases moved

/-! ### What it is to work on the newest updates -/

/-- Nothing is left to do until the next notification. -/
def Drained (s : TickQueue Json) : Prop := s.pending = [] ∧ ∀ update, s.processor ≠ .busy update

def isNotify : TickQueueEvent Json → Bool
  | .notify _ => true
  | _ => false

def isRecv : TickQueueEvent Json → Bool
  | .recv => true
  | _ => false

/-- Where the queue is full, its oldest update makes room for the arriving one. -/
def SkipsOldest (s : TickQueue Json) (e : TickQueueEvent Json) (t : TickQueue Json) : Prop :=
  ∀ json, e = .notify json → t.pending = s.pending ++ [s.arriving json] ∨
    s.pending.length = 64 ∧ t.pending = s.pending.tail ++ [s.arriving json]

/-- Once arrivals stop, the processor works off its queue and ends on the last of them. -/
def EndsOnLast (s : TickQueue Json) : Prop :=
  (∃ later t, (∀ e ∈ later, isNotify e = false) ∧ run step s later = some t ∧ t.Drained) ∧
    ∀ later t, (∀ e ∈ later, isNotify e = false) → run step s later = some t → t.Drained →
      t.handled.getLast? = s.received.getLast?

/-- The queue holds the latest arrivals in order, and the last of them will be handled last. -/
structure Newest (s : TickQueue Json) : Prop where
  recent : s.pending <:+ s.received
  last : s.EndsOnLast

/-- At every step of the run the oldest update is the one skipped, and every state is newest. -/
def KeepsNewest (events : List (TickQueueEvent Json)) : Prop :=
  ∀ seen e later, events = seen ++ e :: later → ∀ s t, run step initial seen = some s →
    s.step e = some t → s.SkipsOldest e t ∧ t.Newest

/-- Every arrival finds fewer than 64 of those before it not yet taken. -/
def Roomy (events : List (TickQueueEvent Json)) : Prop :=
  ∀ seen e later, events = seen ++ e :: later → isNotify e = true →
    seen.countP isNotify < seen.countP isRecv + 64

/-- Nothing was turned away: what arrived was taken or is in the queue. -/
structure Lossless (seen : List (TickQueueEvent Json)) (s : TickQueue Json) : Prop where
  received : s.received = s.handled ++ s.pending
  counted : seen.countP isNotify = seen.countP isRecv + s.pending.length
  numbered : ∀ update ∈ s.received, update.seq < s.received.length
  exited : s.processor = .exited → s.pending = [] ∧ s.senderLive = false

theorem lossless_initial : Lossless [] (initial : TickQueue Json) where
  received := rfl
  counted := rfl
  numbered := by
    intro update member
    cases member
  exited := by
    intro gone
    cases gone

/-- A step keeps everything unless an arrival meets a full queue. -/
theorem lossless_step {seen : List (TickQueueEvent Json)} {s t : TickQueue Json}
    {e : TickQueueEvent Json} (lossless : Lossless seen s) (moved : s.step e = some t)
    (room : isNotify e = true → s.pending.length < 64) : Lossless (seen ++ [e]) t := by
  obtain ⟨received, counted, numbered, exited⟩ := lossless
  rcases step_cases moved with ⟨json, channel, rfl, live, _, queue, rfl⟩ |
    ⟨json, rfl, _, full, rfl⟩ | ⟨rfl, live, rfl⟩ | ⟨update, channel, rfl, idle, queue, rfl⟩ |
    ⟨update, rfl, busy, rfl⟩ | ⟨rfl, idle, none, gone, rfl⟩
  · have arrived : channel.queue.length = s.pending.length + 1 := by
      rw [queue, List.length_append, List.length_singleton]
    refine ⟨?_, ?_, ?_, ?_⟩
    -- what arrives goes behind everything that waits
    · show s.received ++ [s.arriving json] = s.handled ++ channel.queue
      rw [queue, received, List.append_assoc]
    · simp only [List.countP_append, List.countP_singleton, isNotify, isRecv, counted, pending,
        if_true]
      simp only [pending] at arrived
      simp only [Bool.false_eq_true, if_false]
      omega
    · intro update member
      rw [List.length_append, List.length_singleton]
      rcases List.mem_append.mp member with before | here
      · exact Nat.lt_succ_of_lt (numbered update before)
      · rw [List.mem_singleton.mp here]
        exact Nat.lt_succ_self _
    -- a sender that still lives excludes an end of the processor
    · intro gone
      rw [live] at exited
      exact absurd (exited gone).2 (by decide)
  -- a full queue is what the hypothesis excludes
  · exact absurd (room rfl) (by omega)
  · refine ⟨received, ?_, numbered, fun gone => ⟨(exited gone).1, rfl⟩⟩
    simpa [isNotify, isRecv, pending] using counted
  · refine ⟨?_, ?_, numbered, fun gone => by cases gone⟩
    -- what is taken moves from the front of the queue to the handled ones
    · show s.received = (s.handled ++ [update]) ++ channel.queue
      rw [received, queue, List.append_assoc]
      rfl
    · rw [queue, List.length_cons] at counted
      simp only [List.countP_append, List.countP_singleton, isNotify, isRecv, counted, pending,
        if_true]
      simp only [Bool.false_eq_true, if_false]
      omega
  · refine ⟨received, ?_, numbered, fun gone => by cases gone⟩
    simpa [isNotify, isRecv, pending] using counted
  · refine ⟨received, ?_, numbered, fun _ => ⟨none, gone⟩⟩
    simpa [isNotify, isRecv, pending] using counted

/-! ### Working off the queue -/

theorem recv_of_pending {s : TickQueue Json} {update : Update Json} {rest : List (Update Json)}
    (queue : s.pending = update :: rest) : ∃ channel, s.channel.recv = some (update, channel) ∧
      channel.queue = rest := by
  cases taken : s.channel.recv with
  | none => exact absurd (queue.symm.trans (BoundedChannel.recv_none_iff.mp taken)) (by simp)
  | some pair =>
    have shape := queue.symm.trans (BoundedChannel.recv_some taken)
    obtain ⟨same, rest⟩ := List.cons.inj shape
    exact ⟨pair.2, by rw [same], rest.symm⟩

/-- An idle processor takes and finishes one update after the other. -/
theorem drains_idle {s : TickQueue Json} (idle : s.processor = .idle) :
    ∃ later t, (∀ e ∈ later, isNotify e = false) ∧ run step s later = some t ∧ t.Drained := by
  generalize queue : s.pending = updates
  induction updates generalizing s with
  | nil => exact ⟨[], s, by simp, rfl, queue, fun update busy => by rw [idle] at busy; cases busy⟩
  | cons update rest ih =>
    obtain ⟨channel, taken, remaining⟩ := recv_of_pending queue
    obtain ⟨later, t, quiet, played, drained⟩ :=
      ih (s := { s with channel, handled := s.handled ++ [update] }) idle remaining
    refine ⟨.recv :: .finish :: later, t, ?_, ?_, drained⟩
    · intro e member
      rcases List.mem_cons.mp member with rfl | member
      · rfl
      · rcases List.mem_cons.mp member with rfl | member
        · rfl
        · exact quiet e member
    · have first : s.step .recv = some { s with
          channel, processor := .busy update, handled := s.handled ++ [update] } := by
        simp only [step, idle, taken]
      refine (run_cons_some ..).mpr ⟨_, first, (run_cons_some ..).mpr ⟨_, rfl, ?_⟩⟩
      rw [← idle]
      exact played

theorem drains {seen : List (TickQueueEvent Json)} {s : TickQueue Json}
    (lossless : Lossless seen s) :
    ∃ later t, (∀ e ∈ later, isNotify e = false) ∧ run step s later = some t ∧ t.Drained := by
  cases state : s.processor with
  | idle => exact drains_idle state
  | busy update =>
    obtain ⟨later, t, quiet, played, drained⟩ :=
      drains_idle (s := { s with processor := .idle }) rfl
    refine ⟨.finish :: later, t, ?_, (run_cons_some ..).mpr ⟨_, ?_, played⟩, drained⟩
    · intro e member
      rcases List.mem_cons.mp member with rfl | member
      · rfl
      · exact quiet e member
    · simp only [step, state]
  | exited =>
    refine ⟨[], s, by simp, rfl, (lossless.exited state).1, fun update busy => ?_⟩
    rw [state] at busy
    cases busy

/-- While nothing arrives nothing is lost, and the books of what arrived stand still. -/
theorem lossless_quiet {seen later : List (TickQueueEvent Json)} {s t : TickQueue Json}
    (lossless : Lossless seen s) (quiet : ∀ e ∈ later, isNotify e = false)
    (played : run step s later = some t) :
    Lossless (seen ++ later) t ∧ t.received = s.received := by
  induction later generalizing s seen with
  | nil =>
    cases played
    rw [List.append_nil]
    exact ⟨lossless, rfl⟩
  | cons e later ih =>
    obtain ⟨u, moved, rest⟩ := (run_cons_some ..).mp played
    have silent := quiet e (List.mem_cons_self ..)
    have next := lossless_step lossless moved fun arrives => by
      rw [silent] at arrives
      cases arrives
    obtain ⟨kept, same⟩ := ih next (fun f member => quiet f (List.mem_cons_of_mem e member)) rest
    rw [List.append_assoc] at kept
    refine ⟨kept, same.trans ?_⟩
    -- without a notification nothing more is received
    rcases step_cases moved with ⟨json, channel, rfl, _⟩ | ⟨json, rfl, _⟩ | ⟨_, _, rfl⟩ |
      ⟨_, _, _, _, _, rfl⟩ | ⟨_, _, _, rfl⟩ | ⟨_, _, _, _, rfl⟩
    · cases silent
    · cases silent
    · rfl
    · rfl
    · rfl
    · rfl

theorem newest_of_lossless {seen : List (TickQueueEvent Json)} {s : TickQueue Json}
    (lossless : Lossless seen s) : s.Newest := by
  refine ⟨⟨s.handled, lossless.received.symm⟩, drains lossless, ?_⟩
  intro later t quiet played drained
  obtain ⟨kept, same⟩ := lossless_quiet lossless quiet played
  rw [← same, kept.received, drained.1, List.append_nil]

/-- A step from a lossless state is as claimed exactly when an arrival finds room. -/
theorem step_newest_iff {seen : List (TickQueueEvent Json)} {s t : TickQueue Json}
    {e : TickQueueEvent Json} (lossless : Lossless seen s) (moved : s.step e = some t) :
    s.SkipsOldest e t ∧ t.Newest ↔
      (isNotify e = true → seen.countP isNotify < seen.countP isRecv + 64) := by
  have counted := lossless.counted
  constructor
  · intro good arrives
    by_contra full
    rcases step_cases moved with ⟨json, channel, rfl, _, room, _⟩ | ⟨json, rfl, _, _, rfl⟩ |
      ⟨rfl, _⟩ | ⟨_, _, rfl, _⟩ | ⟨_, rfl, _⟩ | ⟨rfl, _⟩
    · omega
    · -- the arriving update is in no queue, but would have to be in this one
      have kept : s.arriving json ∈ s.pending := by
        rcases good.1 json rfl with grown | ⟨_, moved⟩
        · exact absurd (congrArg List.length grown) (by simp [pending])
        · have member := List.mem_append_right s.pending.tail
            (List.mem_singleton_self (s.arriving json))
          rw [← moved] at member
          exact member
      have old : s.arriving json ∈ s.received := by
        rw [lossless.received]
        exact List.mem_append_right _ kept
      exact absurd (lossless.numbered _ old) (Nat.lt_irrefl _)
    · cases arrives
    · cases arrives
    · cases arrives
    · cases arrives
  · intro room
    have short : isNotify e = true → s.pending.length < 64 := by
      intro arrives
      have free := room arrives
      omega
    refine ⟨?_, newest_of_lossless (lossless_step lossless moved short)⟩
    intro json here
    rcases step_cases moved with ⟨other, channel, same, _, _, queue, rfl⟩ |
      ⟨other, same, _, full, _⟩ | ⟨other, _⟩ | ⟨_, _, other, _⟩ | ⟨_, other, _⟩ | ⟨other, _⟩
    · cases here.symm.trans same
      exact Or.inl queue
    · rw [here] at short
      exact absurd (short rfl) (by omega)
    · cases here.symm.trans other
    · cases here.symm.trans other
    · cases here.symm.trans other
    · cases here.symm.trans other

theorem keepsNewest_run {events : List (TickQueueEvent Json)} {t : TickQueue Json}
    (played : run step initial events = some t) :
    (KeepsNewest events ↔ Roomy events) ∧ (Roomy events → Lossless events t) := by
  induction events using List.reverseRecOn generalizing t with
  | nil =>
    cases played
    refine ⟨iff_of_true ?_ ?_, fun _ => lossless_initial⟩
    · intro seen e later split
      -- both properties speak of the last event and of those before it
      exact absurd split (by simp)
    · intro seen e later split
      exact absurd split (by simp)
  | append_singleton es e ih =>
    obtain ⟨u, before, moved⟩ := (run_concat_some ..).mp played
    obtain ⟨agree, kept⟩ := ih before
    have roomy : Roomy (es ++ [e]) ↔ Roomy es ∧
        (isNotify e = true → es.countP isNotify < es.countP isRecv + 64) :=
      forall_split_concat es e
    have newest : KeepsNewest (es ++ [e]) ↔ KeepsNewest es ∧
        -- the state before the last event is the one this run reaches
        ∀ s t, run step initial es = some s → s.step e = some t → s.SkipsOldest e t ∧ t.Newest :=
      forall_split_concat es e
    constructor
    · rw [roomy, newest, agree]
      apply and_congr_right
      intro room
      rw [← step_newest_iff (kept room) moved]
      constructor
      · intro all
        exact all u t before moved
      · intro here s v reached next
        cases reached.symm.trans before
        cases next.symm.trans moved
        exact here
    · intro room
      obtain ⟨room, here⟩ := roomy.mp room
      have lossless := kept room
      apply lossless_step lossless moved
      intro arrives
      have free := here arrives
      have counted := lossless.counted
      omega

/-- The processor works on the newest updates as long as every arrival finds room, and no
longer: the first one that does not is itself skipped, and not the oldest. -/
theorem newest_kept_iff {events : List (TickQueueEvent Json)} {t : TickQueue Json}
    (played : run step initial events = some t) : KeepsNewest events ↔ Roomy events :=
  (keepsNewest_run played).1

/-- A notification that is taken and finished before the next. -/
theorem newest_kept_iff_slow :
    run step initial [.notify 7, .recv, .notify 8, .finish, .recv] = some
      ⟨⟨[], by decide⟩, .busy ⟨1, 8⟩, true, [⟨0, 7⟩, ⟨1, 8⟩], [⟨0, 7⟩, ⟨1, 8⟩]⟩ ∧
    (KeepsNewest [.notify 7, .recv, .notify 8, .finish, .recv] ↔
      Roomy [.notify 7, .recv, .notify 8, .finish, .recv]) :=
  ⟨rfl, newest_kept_iff (t := ⟨⟨[], by decide⟩, .busy ⟨1, 8⟩, true, [⟨0, 7⟩, ⟨1, 8⟩],
    [⟨0, 7⟩, ⟨1, 8⟩]⟩) rfl⟩

/-- The first `n` updates of a pool that reports its number. -/
def updates (n : ℕ) : List (Update ℕ) := (List.range n).map fun i => ⟨i, i⟩

/-- A burst of 65 notifications during one long tick, worked off afterwards. -/
def burst : List (TickQueueEvent ℕ) :=
  [.notify 0, .recv] ++ (List.range 65).map (fun i => .notify (i + 1)) ++ [.finish] ++
    (List.replicate 64 [.recv, .finish]).flatten

/-- The processor ends on the 65th update and never sees the 66th. -/
theorem burst_loses_last :
    run step initial burst = some ⟨.empty, .idle, true, updates 65, updates 66⟩ ∧
    ¬ KeepsNewest burst := by
  have played : run step initial burst = some ⟨.empty, .idle, true, updates 65, updates 66⟩ := by
    decide +kernel
  refine ⟨played, ?_⟩
  intro newest
  have split : burst = burst.dropLast ++ [.finish] := by decide +kernel
  rw [split] at played
  obtain ⟨s, before, moved⟩ := (run_concat_some ..).mp played
  have last := (newest burst.dropLast .finish [] split s _ before moved).2.last.2 [] _
    (fun _ none => by cases none) rfl ⟨rfl, fun _ busy => by cases busy⟩
  exact absurd last (by decide +kernel)

end TickQueue

end TickLiq.Watch
