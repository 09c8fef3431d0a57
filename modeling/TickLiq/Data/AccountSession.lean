import Mathlib.Tactic.IntervalCases
import TickLiq.Data.AccountWatch

/-!
# How often the subscription reconnects, and when a session is given up

The backoff makes up for the attempts it lets through early: what an attempt comes too soon
for one a quarter minute is `credit`, and it is paid back by the sleeps that follow or by the
minute that a healthy session has lasted.
-/
namespace TickLiq.AccountWatch

open Machine
open CexFeed (fromSecs)

/-! ### Attempts -/

def attemptGap : ℕ := fromSecs 15

/-- How far the attempts are ahead of one every quarter minute, by the backoff reached. -/
def credit (backoff : ℕ) : ℕ :=
  if backoff < fromSecs 2 then 0
  else if backoff < fromSecs 4 then fromSecs 14
  else if backoff < fromSecs 8 then fromSecs 27
  else if backoff < fromSecs 16 then fromSecs 38
  else fromSecs 45

theorem credit_le (backoff : ℕ) : credit backoff ≤ fromSecs 45 := by
  unfold credit
  split
  · exact Nat.zero_le _
  split
  · decide
  split
  · decide
  split
  · decide
  · exact le_rfl

/-- A sleep pays for the next attempt, up to what the credit grows by. -/
theorem credit_grow (failures : ℕ) :
    credit (reconnect.delay failures) + attemptGap ≤
      reconnect.delay failures + credit (reconnect.grow (reconnect.delay failures)) := by
  rw [Backoff.grow_delay]
  by_cases early : failures < 5
  · interval_cases failures <;> decide
  · -- from here on every sleep lasts half a minute
    have reached : ∀ n, 5 ≤ n → reconnect.delay n = fromSecs 30 := by
      intro n many
      apply Backoff.delay_eq_cap
      have doubled := Nat.pow_le_pow_right two_pos many
      simp only [reconnect, reconnectMax, reconnectBase, fromSecs]
      omega
    rw [reached failures (by omega), reached (failures + 1) (by omega)]
    decide

def isConnect : WatchEvent → Bool
  | .connect => true
  | _ => false

/-- The backoff is one the doubling reaches, and the phase does not reach into the future. -/
structure Timed (s : AccountWatch) : Prop where
  backoff : ∃ failures, s.backoff = reconnect.delay failures
  started : ∀ start, s.phase.sessionStart = some start → start ≤ s.now
  asleep : ∀ wakeAt reason, s.phase = .backingOff wakeAt reason → wakeAt ≤ s.now + reconnectMax

/-- The time before which the attempts made so far are paid for. -/
def due (s : AccountWatch) : ℕ :=
  match s.phase with
  | .starting => s.now + credit s.backoff
  | .connecting start | .subscribing start | .live start _ => start + credit s.backoff + attemptGap
  | .backingOff wakeAt _ => wakeAt + credit (reconnect.grow s.backoff)
  | .exited => s.now + fromSecs 75

theorem due_session {s : AccountWatch} {start : ℕ} (phase : s.phase.sessionStart = some start) :
    due s = start + credit s.backoff + attemptGap := by
  unfold due
  cases inside : s.phase with
  | connecting | subscribing | live =>
    rw [inside] at phase
    cases phase
    rfl
  | starting | backingOff | exited =>
    rw [inside] at phase
    cases phase

theorem endSession_eq (s : AccountWatch) (start : ℕ) (reason : String) (up : Bool) :
    ∃ backoff, (backoff = s.backoff ∨ backoff = reconnectBase ∧ start + fromSecs 60 ≤ s.now) ∧
      s.endSession start (.reconnect reason up) =
        { s with backoff, phase := .backingOff (s.now + backoff) reason } := by
  refine ⟨_, ?_, rfl⟩
  by_cases healthy : up = true ∧ minHealthySession ≤ s.now - start
  · have old := healthy.2
    rw [if_pos healthy]
    simp only [minHealthySession, fromSecs] at old ⊢
    exact Or.inr ⟨trivial, by omega⟩
  · rw [if_neg healthy]
    exact Or.inl rfl

theorem timed_initial (now : ℕ) : Timed (initial now) where
  backoff := ⟨0, rfl⟩
  started := by rintro start ⟨⟩
  asleep := by rintro wakeAt reason ⟨⟩

variable {s t : AccountWatch} {e : WatchEvent}

theorem timed_moves (moved : Moves s e t) (timed : Timed s) : Timed t := by
  obtain ⟨⟨failures, backoff⟩, started, asleep⟩ := timed
  cases moved with
  | elapse nanos =>
    refine ⟨⟨failures, backoff⟩, ?_, ?_⟩
    · intro start phase
      exact (started start phase).trans (Nat.le_add_right ..)
    · intro wakeAt reason phase
      have before := asleep wakeAt reason phase
      dsimp only
      omega
  | connect =>
    refine ⟨⟨failures, backoff⟩, ?_, by rintro _ _ ⟨⟩⟩
    rintro start ⟨⟩
    exact le_rfl
  | connected phase | subscribed phase =>
    refine ⟨⟨failures, backoff⟩, ?_, by rintro _ _ ⟨⟩⟩
    rintro start ⟨⟩
    exact started _ (by rw [phase]; rfl)
  | pinged phase | ponged _ _ phase =>
    refine ⟨⟨failures, backoff⟩, ?_, by rintro _ _ ⟨⟩⟩
    rintro start ⟨⟩
    exact started _ (by rw [phase]; rfl)
  | other => exact ⟨⟨failures, backoff⟩, started, asleep⟩
  | ended e notified reason up phase =>
    -- a session ends on the backoff of before or on the base
    obtain ⟨slept, which, ended⟩ := endSession_eq { s with notified } _ reason up
    have reached : ∃ failures, slept = reconnect.delay failures := by
      rcases which with same | ⟨reset, _⟩
      · exact ⟨failures, same.trans backoff⟩
      · exact ⟨0, reset⟩
    rw [ended]
    refine ⟨reached, by rintro _ ⟨⟩, ?_⟩
    rintro _ _ ⟨⟩
    obtain ⟨n, rfl⟩ := reached
    exact Nat.add_le_add_left (Backoff.delay_le_cap reconnect n) _
  | wake =>
    refine ⟨⟨failures + 1, ?_⟩, by rintro _ ⟨⟩, by rintro _ _ ⟨⟩⟩
    rw [← Backoff.grow_delay, ← backoff]
  | shutdown => exact ⟨⟨failures, backoff⟩, by rintro _ ⟨⟩, by rintro _ _ ⟨⟩⟩

/-- Whatever a step does, the attempts stay paid for. -/
theorem due_moves (moved : Moves s e t) (timed : Timed s) :
    due s + (if isConnect e then attemptGap else 0) ≤ due t := by
  have most := credit_le s.backoff
  cases moved with
  | elapse nanos =>
    simp only [due, isConnect, Bool.false_eq_true, if_false]
    split <;> omega
  | connect phase =>
    simp only [due, phase, isConnect, if_true]
    omega
  | connected phase | subscribed phase | pinged phase | ponged _ _ phase =>
    simp [due, phase, isConnect]
  | other => simp [due, isConnect]
  | ended e notified reason up phase ends =>
    have begun := timed.started _ phase
    obtain ⟨failures, backoff⟩ := timed.backoff
    have noConnect : isConnect e = false := by
      cases e <;> simp [WatchEvent.mayEnd] at ends <;> rfl
    obtain ⟨slept, which, ended⟩ := endSession_eq { s with notified } _ reason up
    rw [due_session phase, ended, noConnect]
    simp only [due, Bool.false_eq_true, if_false]
    rcases which with same | ⟨reset, healthy⟩
    · -- the sleep that follows pays for the attempt
      have paid := credit_grow failures
      rw [← backoff] at paid
      rw [same]
      dsimp only
      omega
    · -- the minute that the session has lasted does
      have first : credit (reconnect.grow reconnectBase) = fromSecs 14 := by decide
      rw [reset, first]
      simp only [fromSecs, attemptGap, reconnectBase] at most healthy ⊢
      omega
  | wake phase woken =>
    simp only [due, phase, isConnect, Bool.false_eq_true, if_false]
    omega
  | shutdown =>
    have sleep := credit_le (reconnect.grow s.backoff)
    simp only [isConnect, Bool.false_eq_true, if_false]
    cases phase : s.phase with
    | starting | exited =>
      simp only [due, phase, fromSecs] at most ⊢
      omega
    | connecting start | subscribing start | live start =>
      have begun := timed.started start (by rw [phase]; rfl)
      simp only [due, phase, attemptGap, fromSecs] at most ⊢
      omega
    | backingOff wakeAt reason =>
      have bounded := timed.asleep wakeAt reason phase
      simp only [due, phase, reconnectMax, fromSecs] at sleep bounded ⊢
      omega

variable (serde : SerdeJson)

theorem paced : Paced (step serde) Timed now due (fun _ e => isConnect e) (fun _ _ => false)
    attemptGap (fromSecs 45) where
  keeps _ _ _ timed moved := timed_moves (step_moves serde moved) timed
  clock _ _ _ _ moved := by
    cases step_moves serde moved with
    | elapse => exact Nat.le_add_right ..
    | ended e notified reason up => exact le_rfl
    | _ => exact le_rfl
  moves _ _ _ timed moved := due_moves (step_moves serde moved) timed
  ready s e _ _ moved attempt := by
    have most := credit_le s.backoff
    cases step_moves serde moved with
    | connect phase =>
      simp only [due, phase]
      omega
    | ended e notified reason up phase ends =>
      cases e <;> simp [WatchEvent.mayEnd, isConnect] at ends attempt
    | _ => simp [isConnect] at attempt

/-- In no run does the subscription try to connect more often than four times and once more for
every quarter minute it has been up, whatever the endpoint does. -/
theorem connects_le {now : ℕ} {t : AccountWatch} {es : List WatchEvent}
    (played : run (step serde) (initial now) es = some t) :
    now + fromSecs 15 * es.countP isConnect ≤ t.now + fromSecs 60 := by
  have first : due (initial now) = now := by simp [due, initial, credit, reconnectBase, fromSecs]
  have bound := (paced serde).attempts_le played (timed_initial now) (by
    rw [first]
    exact Nat.le_add_right ..)
  have quiet : tally (step serde) (fun _ _ => false) (initial now) es = 0 := by
    rw [tally_event _ (fun _ => false) played]
    simp
  rw [tally_event _ isConnect played, quiet, first] at bound
  have gap : attemptGap = fromSecs 15 := rfl
  have sum : fromSecs 45 + fromSecs 15 = fromSecs 60 := by decide
  rw [gap, Nat.zero_add, Nat.mul_one, Nat.add_assoc, sum] at bound
  exact bound

/-- A parser that knows no text, for runs in which none is read. -/
def noText : SerdeJson := ⟨fun _ => .error "expected value", fun _ => "null"⟩

/-- A refused connection, and the next attempt after the first backoff. -/
def refused : List WatchEvent :=
  [.connect, .connectFailed "refused", .elapse (fromSecs 1), .wake, .connect]

theorem connects_le_refused : ∃ t, run (step noText) (initial 0) refused = some t ∧
    0 + fromSecs 15 * refused.countP isConnect ≤ t.now + fromSecs 60 :=
  ⟨_, rfl, connects_le noText rfl⟩

/-! ### Unanswered pings -/

/-- The pings and pongs of the session that is up. -/
structure PingLedger where
  liveSince : ℕ
  answered : Bool
  /-- When the pings were sent that no pong has come in after, the oldest first. -/
  unanswered : List ℕ
deriving DecidableEq

def PingLedger.note (y : PingLedger) (s : AccountWatch) : WatchEvent → PingLedger
  | .subscribed => ⟨s.now, false, []⟩
  | .pingTick (.ok ()) => { y with unanswered := y.unanswered ++ [s.now] }
  | .read (some (.ok (.pong _))) _ => { y with answered := true, unanswered := [] }
  | _ => y

def pings (s : AccountWatch) (es : List WatchEvent) : PingLedger :=
  books (step serde) PingLedger.note ⟨s.now, false, []⟩ s es

/-- The clock does not run past a timer of the session. -/
def Punctual (s : AccountWatch) (e : WatchEvent) : Prop :=
  ∀ nanos start session, e = .elapse nanos → s.phase = .live start session →
    s.now + nanos ≤ session.nextPing ∧
      ∀ deadline, session.pongDeadline = some deadline → s.now + nanos ≤ deadline

/-- The deadline is the one of the oldest ping. -/
def TimesOldest (y : PingLedger) (s : AccountWatch) : Prop :=
  ∀ start session, s.phase = .live start session →
    session.pongDeadline = y.unanswered.head?.map (· + pongTimeout)

/-- No timer is overdue, and the first ping was sent in time. -/
structure OnTime (y : PingLedger) (s : AccountWatch) : Prop where
  ping : ∀ start session, s.phase = .live start session → s.now ≤ session.nextPing
  pong : ∀ start session, s.phase = .live start session → ∀ deadline,
    session.pongDeadline = some deadline → s.now ≤ deadline
  first : ∀ start session, s.phase = .live start session → y.answered = false →
    (y.unanswered = [] ∧ session.nextPing = y.liveSince + pingInterval) ∨
      ∃ sentAt, y.unanswered.head? = some sentAt ∧ sentAt ≤ y.liveSince + pingInterval

omit serde in
theorem note_read {y : PingLedger} {msg : Option (Except String Message)}
    {replied : Except String Unit} (noPong : ∀ data, msg ≠ some (.ok (.pong data))) :
    y.note s (.read msg replied) = y := by
  unfold PingLedger.note
  split
  next here => cases here
  next here => cases here
  next data _ here =>
    cases here
    exact absurd rfl (noPong data)
  next => rfl

omit serde in
theorem timesOldest_moves {y : PingLedger} (moved : Moves s e t) (kept : TimesOldest y s) :
    TimesOldest (y.note s e) t := by
  intro start' session' live
  cases moved with
  | elapse => exact kept start' session' live
  | connect | connected | wake | shutdown => cases live
  | subscribed =>
    cases live
    rfl
  | pinged phase due =>
    cases live
    have before := kept _ _ phase
    simp only [Session.pinged, PingLedger.note, before]
    -- a ping behind others does not change which is the oldest
    cases y.unanswered with
    | nil => rfl
    | cons oldest rest => rfl
  | ponged data replied phase =>
    cases live
    rfl
  | other msg replied notified phase noPong =>
    rw [note_read noPong]
    exact kept start' session' live
  | ended e notified reason up =>
    obtain ⟨_, _, ended⟩ := endSession_eq { s with notified } _ reason up
    rw [ended] at live
    cases live

omit serde in
theorem onTime_moves {y : PingLedger} (moved : Moves s e t) (punctual : Punctual s e)
    (kept : OnTime y s) : OnTime (y.note s e) t := by
  obtain ⟨ping, pong, first⟩ := kept
  cases moved with
  | elapse nanos =>
    refine ⟨?_, ?_, first⟩
    · intro start session live
      exact (punctual nanos start session rfl live).1
    · intro start session live
      exact (punctual nanos start session rfl live).2
  | connect | connected | wake | shutdown =>
    exact ⟨by rintro _ _ ⟨⟩, by rintro _ _ ⟨⟩, by rintro _ _ ⟨⟩⟩
  | subscribed =>
    refine ⟨?_, ?_, ?_⟩
    · rintro _ _ ⟨⟩
      exact Nat.le_add_right ..
    · rintro _ _ ⟨⟩ _ ⟨⟩
    · rintro _ _ ⟨⟩ _
      exact Or.inl ⟨rfl, rfl⟩
  | pinged phase due =>
    have here := ping _ _ phase
    refine ⟨?_, ?_, ?_⟩
    · rintro _ _ ⟨⟩
      exact here.trans (Nat.le_add_right ..)
    · rintro _ _ ⟨⟩ deadline waiting
      simp only [Session.pinged] at waiting
      split at waiting
      next => cases waiting; exact Nat.le_add_right ..
      next old set => cases waiting; exact pong _ _ phase deadline set
    · rintro _ _ ⟨⟩ silent
      right
      -- the first ping goes out as its tick falls due
      rcases first _ _ phase silent with ⟨none, next⟩ | ⟨sentAt, oldest, early⟩
      · refine ⟨s.now, by simp [PingLedger.note, none], ?_⟩
        exact here.trans_eq next
      · refine ⟨sentAt, ?_, early⟩
        simp [PingLedger.note, List.head?_append, oldest]
  | ponged data replied phase =>
    refine ⟨?_, ?_, ?_⟩
    · have before := ping _ _ phase
      rintro _ _ ⟨⟩
      exact before
    · rintro _ _ ⟨⟩ _ ⟨⟩
    · rintro _ _ ⟨⟩ ⟨⟩
  | other msg replied notified phase noPong =>
    rw [note_read noPong]
    exact ⟨ping, pong, first⟩
  | ended e notified reason up =>
    obtain ⟨_, _, ended⟩ := endSession_eq { s with notified } _ reason up
    rw [ended]
    exact ⟨by rintro _ _ ⟨⟩, by rintro _ _ ⟨⟩, by rintro _ _ ⟨⟩⟩

theorem timesOldest_run {now : ℕ} {es : List WatchEvent}
    (played : run (step serde) (initial now) es = some t) :
    TimesOldest (pings serde (initial now) es) t := by
  refine run_history _ _ (fun es t => TimesOldest (pings serde (initial now) es) t) ?_ ?_ es t
    played
  · rintro _ _ ⟨⟩
  · intro es u e v before kept moved
    rw [pings, books_concat _ _ _ e before]
    exact timesOldest_moves (step_moves serde moved) kept

theorem onTime_run {now : ℕ} {es : List WatchEvent}
    (played : run (step serde) (initial now) es = some t)
    (punctual : Guarded (step serde) Punctual (initial now) es) :
    OnTime (pings serde (initial now) es) t := by
  refine run_history _ _ (fun es t => Guarded (step serde) Punctual (initial now) es →
    OnTime (pings serde (initial now) es) t) ?_ ?_ es t played punctual
  · intro _
    exact ⟨by rintro _ _ ⟨⟩, by rintro _ _ ⟨⟩, by rintro _ _ ⟨⟩⟩
  · intro es u e v before ih moved guarded
    obtain ⟨earlier, here⟩ := (guarded_concat _ _ _ u es e before).mp guarded
    rw [pings, books_concat _ _ _ e before]
    exact onTime_moves (step_moves serde moved) here (ih earlier)

/-- The watchdog ends a session only when its oldest unanswered ping is ten seconds old. Where the
timers are punctual, no ping of a session that is up has waited longer, and a session that no
pong has reached is over forty seconds after it went up. -/
theorem watchdog_oldest_ping {now : ℕ} {es : List WatchEvent}
    (played : run (step serde) (initial now) es = some s) :
    (∀ t, step serde s .pongWatchdog = some t → ∃ sentAt,
      (pings serde (initial now) es).unanswered.head? = some sentAt ∧
        sentAt + fromSecs 10 ≤ s.now) ∧
    (Guarded (step serde) Punctual (initial now) es →
      ∀ start session, s.phase = .live start session →
        (∀ sentAt, (pings serde (initial now) es).unanswered.head? = some sentAt →
          s.now ≤ sentAt + fromSecs 10) ∧
        ((pings serde (initial now) es).answered = false →
          s.now ≤ (pings serde (initial now) es).liveSince + fromSecs 40)) := by
  have oldest := timesOldest_run serde played
  constructor
  · intro t moved
    cases step_moves serde moved with
    | ended e notified reason up phase ends late =>
      obtain ⟨session, deadline, live, waiting, passed⟩ := late rfl
      -- the deadline that has passed is ten seconds behind the oldest ping
      rw [oldest _ _ live] at waiting
      obtain ⟨sentAt, head, rfl⟩ := Option.map_eq_some_iff.mp waiting
      exact ⟨sentAt, head, passed⟩
  · intro punctual start session live
    obtain ⟨ping, pong, first⟩ := onTime_run serde played punctual
    have waited : ∀ sentAt, (pings serde (initial now) es).unanswered.head? = some sentAt →
        s.now ≤ sentAt + fromSecs 10 := by
      intro sentAt head
      apply pong start session live
      rw [oldest start session live, head]
      rfl
    refine ⟨waited, fun silent => ?_⟩
    -- without a pong yet: a ping is due within thirty seconds, or the first one waits
    rcases first start session live silent with ⟨_, next⟩ | ⟨sentAt, head, early⟩
    · have tick := ping start session live
      simp only [pingInterval, fromSecs] at next ⊢
      omega
    · have bound := waited sentAt head
      simp only [pingInterval, fromSecs] at early bound ⊢
      omega

/-- The endpoint accepts the connection and never says anything. -/
def silentPeer : List WatchEvent :=
  [.connect, .connected, .subscribed, .elapse (fromSecs 30), .pingTick (.ok ()),
    .elapse (fromSecs 10)]

/-- Ten seconds after its only ping, with the next one still to come. -/
def unheard : AccountWatch :=
  ⟨fromSecs 40, reconnectBase, .live 0 ⟨fromSecs 60, some (fromSecs 40)⟩, []⟩

theorem watchdog_oldest_ping_silent : ∃ t,
    run (step noText) (initial 0) silentPeer = some unheard ∧
    step noText unheard .pongWatchdog = some t ∧
    (∃ sentAt, (pings noText (initial 0) silentPeer).unanswered.head? = some sentAt ∧
      sentAt + fromSecs 10 ≤ unheard.now) ∧
    unheard.now ≤ (pings noText (initial 0) silentPeer).liveSince + fromSecs 40 := by
  have played : run (step noText) (initial 0) silentPeer = some unheard := by
    simp [silentPeer, unheard, run, step, initial, turn, Session.onPing, Session.pinged,
      pingInterval, pongTimeout, fromSecs]
  have punctual : Guarded (step noText) Punctual (initial 0) silentPeer := by
    simp [silentPeer, Guarded, Punctual, step, initial, turn, Session.onPing, Session.pinged,
      pingInterval, pongTimeout, fromSecs]
  have silent : (pings noText (initial 0) silentPeer).answered = false := by
    simp [pings, books, PingLedger.note, silentPeer, step, initial, turn, Session.onPing,
      Session.pinged, pingInterval, pongTimeout, fromSecs]
  obtain ⟨fires, bounded⟩ := watchdog_oldest_ping noText played
  obtain ⟨t, ends⟩ : ∃ t, step noText unheard .pongWatchdog = some t := by simp [step, unheard]
  exact ⟨t, played, ends, fires t ends, (bounded punctual _ _ rfl).2 silent⟩

end TickLiq.AccountWatch
