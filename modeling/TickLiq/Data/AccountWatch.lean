import TickLiq.Data.CexFeed
import TickLiq.Machine.Backoff
import TickLiq.Machine.JsonValue
import TickLiq.Machine.Utf8

/-!
# The account subscription

`watch_account` opens a session, waits when it has ended, and opens the next one. A session
pings every half minute and gives up ten seconds after the oldest ping that was not answered.
A timer may fire late, but never early; which of two ready arms is taken is left open.
-/
namespace TickLiq

open Machine
open CexFeed (fromSecs)

namespace AccountWatch

def pingInterval : ℕ := fromSecs 30
def pongTimeout : ℕ := fromSecs 10
def reconnectBase : ℕ := fromSecs 1
def reconnectMax : ℕ := fromSecs 30
def minHealthySession : ℕ := fromSecs 60

def reconnect : Backoff := ⟨reconnectBase, reconnectMax, by decide⟩

/-- A frame as `read` hands it out. -/
inductive Message where
  | text (text : String)
  | binary (bytes : Bytes)
  | ping (data : Bytes)
  | pong (data : Bytes)
  | close
  | frame

inductive SessionResult where
  | shutdown
  | reconnect (reason : String) (connected : Bool)
deriving DecidableEq

/-- What is used of `serde_json`. -/
structure SerdeJson where
  fromStr : String → Except String JsonValue
  toString : JsonValue → String

/-- The timers of a session that is up. -/
structure Session where
  nextPing : ℕ
  pongDeadline : Option ℕ
deriving DecidableEq

inductive WatchPhase where
  /-- The top of the loop. -/
  | starting
  | connecting (sessionStart : ℕ)
  | subscribing (sessionStart : ℕ)
  | live (sessionStart : ℕ) (session : Session)
  | backingOff (wakeAt : ℕ) (reason : String)
  | exited
deriving DecidableEq

inductive WatchEvent where
  | elapse (nanos : ℕ)
  /-- An attempt starts. -/
  | connect
  | connected
  | connectFailed (error : String)
  | subscribed
  | subscribeFailed (error : String)
  | pongWatchdog
  | pingTick (sent : Except String Unit)
  /-- `read.next()` resolves; a ping is answered by a pong that may fail to be sent. -/
  | read (msg : Option (Except String Message)) (replied : Except String Unit)
  /-- The backoff has elapsed. -/
  | wake
  /-- The task sees the shutdown broadcast. -/
  | shutdown

section Session

variable (serde : SerdeJson)

/-- What is passed to `on_notify`, if anything, and the reason to reconnect, if there is one. -/
def handleText (text : String) : Option JsonValue × Option String :=
  match serde.fromStr text with
  | .error _ => (none, none)
  | .ok json =>
    if (json.get "method").bind JsonValue.asStr = some "accountNotification" then
      (some json, none)
    -- the reply to our own subscribe request
    else if (json.get "id").bind JsonValue.asI64 = some 1 then
      match json.get "error" with
      | some err => (none, some ("subscribe rejected: " ++ serde.toString err))
      | none => (none, none)
    else (none, none)

def Session.onText (session : Session) (text : String) :
    Option JsonValue × Except SessionResult Session :=
  match handleText serde text with
  | (json, some reason) => (json, .error (.reconnect reason true))
  | (json, none) => (json, .ok session)

/-- The arm of `read.next()`. -/
def Session.onRead (session : Session) (msg : Option (Except String Message))
    (replied : Except String Unit) : Option JsonValue × Except SessionResult Session :=
  match msg with
  | none => (none, .error (.reconnect "stream closed" true))
  | some (.error e) => (none, .error (.reconnect ("message error: " ++ e) true))
  | some (.ok (.pong _)) => (none, .ok { session with pongDeadline := none })
  | some (.ok (.ping _)) =>
    match replied with
    | .ok () => (none, .ok session)
    | .error e => (none, .error (.reconnect ("pong send error: " ++ e) true))
  | some (.ok .close) => (none, .error (.reconnect "server closed connection" true))
  | some (.ok (.text text)) => session.onText serde text
  | some (.ok (.binary bytes)) =>
    match fromUtf8 bytes with
    | .ok text => session.onText serde (String.ofList text)
    | .error _ => (none, .ok session)
  | some (.ok .frame) => (none, .ok session)

/-- An outstanding deadline is left alone. -/
def Session.pinged (session : Session) (now : ℕ) : Session where
  nextPing := session.nextPing + pingInterval
  pongDeadline :=
    match session.pongDeadline with
    | none => some (now + pongTimeout)
    | some deadline => some deadline

/-- The arm of `ping_interval.tick()`. -/
def Session.onPing (session : Session) (now : ℕ) :
    Except String Unit → Except SessionResult Session
  | .ok () => .ok (session.pinged now)
  | .error e => .error (.reconnect ("ping send error: " ++ e) true)

end Session

end AccountWatch

open AccountWatch in
/-- The task, with the calls of `on_notify` so far. -/
structure AccountWatch where
  now : ℕ
  backoff : ℕ
  phase : WatchPhase
  notified : List JsonValue

namespace AccountWatch

def initial (now : ℕ) : AccountWatch := ⟨now, reconnectBase, .starting, []⟩

/-- What `watch_account` does with the result of a session. -/
def endSession (s : AccountWatch) (sessionStart : ℕ) : SessionResult → AccountWatch
  | .shutdown => { s with phase := .exited }
  | .reconnect reason connected =>
    -- only a session that was long enough up counts as healthy
    let backoff := if connected = true ∧ minHealthySession ≤ s.now - sessionStart then reconnectBase
      else s.backoff
    { s with backoff, phase := .backingOff (s.now + backoff) reason }

/-- One turn of the select loop. -/
def turn (s : AccountWatch) (sessionStart : ℕ)
    (out : Option JsonValue × Except SessionResult Session) : AccountWatch :=
  let s := { s with notified := s.notified ++ out.1.toList }
  match out.2 with
  | .ok session => { s with phase := .live sessionStart session }
  | .error result => s.endSession sessionStart result

variable (serde : SerdeJson)

def step (s : AccountWatch) (e : WatchEvent) : Option AccountWatch :=
  match e, s.phase with
  | .elapse nanos, _ => some { s with now := s.now + nanos }
  | .connect, .starting => some { s with phase := .connecting s.now }
  | .connectFailed error, .connecting start =>
    some (s.endSession start (.reconnect ("connect error: " ++ error) false))
  | .connected, .connecting start => some { s with phase := .subscribing start }
  | .subscribeFailed error, .subscribing start =>
    some (s.endSession start (.reconnect ("subscribe send error: " ++ error) true))
  | .subscribed, .subscribing start =>
    some { s with phase := .live start ⟨s.now + pingInterval, none⟩ }
  | .pongWatchdog, .live start session =>
    match session.pongDeadline with
    | some deadline =>
      if deadline ≤ s.now then some (s.endSession start (.reconnect "pong timeout" true)) else none
    -- the arm is disabled
    | none => none
  | .pingTick sent, .live start session =>
    if session.nextPing ≤ s.now then some (s.turn start (none, session.onPing s.now sent)) else none
  | .read msg replied, .live start session => some (s.turn start (session.onRead serde msg replied))
  | .wake, .backingOff wakeAt _ =>
    if wakeAt ≤ s.now then some { s with backoff := reconnect.grow s.backoff, phase := .starting }
    else none
  -- while a connect or a subscribe is under way nobody listens for the shutdown
  | .shutdown, .starting | .shutdown, .live .. | .shutdown, .backingOff .. =>
    some { s with phase := .exited }
  | _, _ => none

/-- The notification that an event brings, if it brings one. -/
def heard : WatchEvent → Option JsonValue
  | .read (some (.ok (.text text))) _ => (handleText serde text).1
  | .read (some (.ok (.binary bytes))) _ =>
    match fromUtf8 bytes with
    | .ok text => (handleText serde (String.ofList text)).1
    | .error _ => none
  | _ => none

/-! ### What a step does -/

/-- When the session of the phase was begun, before its connect. -/
def WatchPhase.sessionStart : WatchPhase → Option ℕ
  | .connecting start | .subscribing start | .live start _ => some start
  | _ => none

/-- The events that a session may end with. -/
def WatchEvent.mayEnd : WatchEvent → Bool
  | .connectFailed _ | .subscribeFailed _ | .pongWatchdog | .pingTick (.error _) | .read .. => true
  | _ => false

/-- What each enabled event does to the phase and the timers. -/
inductive Moves (s : AccountWatch) : WatchEvent → AccountWatch → Prop where
  | elapse (nanos : ℕ) : Moves s (.elapse nanos) { s with now := s.now + nanos }
  | connect (phase : s.phase = .starting) : Moves s .connect { s with phase := .connecting s.now }
  | connected {start : ℕ} (phase : s.phase = .connecting start) :
    Moves s .connected { s with phase := .subscribing start }
  | subscribed {start : ℕ} (phase : s.phase = .subscribing start) :
    Moves s .subscribed { s with phase := .live start ⟨s.now + pingInterval, none⟩ }
  | pinged {start : ℕ} {session : Session} (phase : s.phase = .live start session)
      (due : session.nextPing ≤ s.now) :
    Moves s (.pingTick (.ok ())) { s with phase := .live start (session.pinged s.now) }
  | ponged {start : ℕ} {session : Session} (data : Bytes) (replied : Except String Unit)
      (phase : s.phase = .live start session) :
    Moves s (.read (some (.ok (.pong data))) replied)
      { s with phase := .live start { session with pongDeadline := none } }
  | other {start : ℕ} {session : Session} (msg : Option (Except String Message))
      (replied : Except String Unit) (notified : List JsonValue)
      (phase : s.phase = .live start session) (noPong : ∀ data, msg ≠ some (.ok (.pong data))) :
    Moves s (.read msg replied) { s with notified }
  | ended {start : ℕ} (e : WatchEvent) (notified : List JsonValue) (reason : String)
      (up : Bool) (phase : s.phase.sessionStart = some start) (ends : e.mayEnd = true)
      (late : e = .pongWatchdog → ∃ session deadline, s.phase = .live start session ∧
        session.pongDeadline = some deadline ∧ deadline ≤ s.now) :
    Moves s e ({ s with notified }.endSession start (.reconnect reason up))
  | wake {wakeAt : ℕ} {reason : String} (phase : s.phase = .backingOff wakeAt reason)
      (due : wakeAt ≤ s.now) :
    Moves s .wake { s with backoff := reconnect.grow s.backoff, phase := .starting }
  | shutdown : Moves s .shutdown { s with phase := .exited }

theorem onText_cases (session : Session) (text : String) :
    (session.onText serde text = ((handleText serde text).1, .ok session)) ∨
      ∃ reason, session.onText serde text =
        ((handleText serde text).1, .error (.reconnect reason true)) := by
  unfold Session.onText
  split
  next json reason told => exact Or.inr ⟨reason, by rw [told]⟩
  next json told => exact Or.inl (by rw [told])

/-- A read that is no pong leaves the timers as they are, or ends the session. -/
theorem onRead_cases (session : Session) (msg : Option (Except String Message))
    (replied : Except String Unit) :
    (∃ data, msg = some (.ok (.pong data)) ∧
      session.onRead serde msg replied = (none, .ok { session with pongDeadline := none })) ∨
    (∀ data, msg ≠ some (.ok (.pong data))) ∧
      ((session.onRead serde msg replied).2 = .ok session ∨
        ∃ reason, (session.onRead serde msg replied).2 = .error (.reconnect reason true)) := by
  unfold Session.onRead
  split
  next => exact Or.inr ⟨by simp, Or.inr ⟨_, rfl⟩⟩
  next => exact Or.inr ⟨by simp, Or.inr ⟨_, rfl⟩⟩
  next data => exact Or.inl ⟨data, rfl, rfl⟩
  next =>
    -- a ping of the server
    refine Or.inr ⟨by simp, ?_⟩
    cases replied with
    | ok => exact Or.inl rfl
    | error => exact Or.inr ⟨_, rfl⟩
  next => exact Or.inr ⟨by simp, Or.inr ⟨_, rfl⟩⟩
  next text =>
    refine Or.inr ⟨by simp, ?_⟩
    rcases onText_cases serde session text with kept | ⟨reason, rejected⟩
    · exact Or.inl (by rw [kept])
    · exact Or.inr ⟨reason, by rw [rejected]⟩
  next =>
    refine Or.inr ⟨by simp, ?_⟩
    split
    next text _ =>
      rcases onText_cases serde session (String.ofList text) with kept | ⟨reason, rejected⟩
      · exact Or.inl (by rw [kept])
      · exact Or.inr ⟨reason, by rw [rejected]⟩
    next => exact Or.inl rfl
  next => exact Or.inr ⟨by simp, Or.inl rfl⟩

theorem step_moves {s t : AccountWatch} {e : WatchEvent} (moved : step serde s e = some t) :
    Moves s e t := by
  unfold step at moved
  split at moved
  next phase nanos => cases moved; exact .elapse nanos
  next phase => cases moved; exact .connect phase
  next error start phase =>
    cases moved
    exact .ended _ s.notified _ _ (by rw [phase]; rfl) rfl (by simp)
  next start phase => cases moved; exact .connected phase
  next error start phase =>
    cases moved
    exact .ended _ s.notified _ _ (by rw [phase]; rfl) rfl (by simp)
  next start phase => cases moved; exact .subscribed phase
  next start session phase =>
    -- the watchdog fires only past the deadline of a ping that waits for its pong
    split at moved
    next deadline waiting =>
      split at moved
      next passed =>
        cases moved
        exact .ended _ s.notified _ _ (by rw [phase]; rfl) rfl
          fun _ => ⟨session, deadline, phase, waiting, passed⟩
      next => cases moved
    next => cases moved
  next sent start session phase =>
    split at moved
    next due =>
      cases moved
      -- a ping that cannot be sent ends the session
      cases sent with
      | ok =>
        have told : s.turn start (none, session.onPing s.now (.ok ())) =
            { s with phase := .live start (session.pinged s.now) } := by
          simp [turn, Session.onPing]
        rw [told]
        exact .pinged phase due
      | error e => exact .ended _ (s.notified ++ []) _ _ (by rw [phase]; rfl) rfl (by simp)
    next => cases moved
  next msg replied start session phase =>
    cases moved
    -- a pong clears the deadline, other messages leave it or end the session
    obtain ⟨data, rfl, pong⟩ | ⟨noPong, kept | ⟨reason, ended⟩⟩ :=
      onRead_cases serde session msg replied
    · have told : s.turn start (none, .ok { session with pongDeadline := none }) =
          { s with phase := .live start { session with pongDeadline := none } } := by
        simp [turn]
      rw [pong, told]
      exact .ponged data replied phase
    · simp only [turn, kept, ← phase]
      exact .other msg replied _ phase noPong
    · simp only [turn, ended]
      exact .ended _ _ _ _ (by simp only [phase]; rfl) rfl (by simp)
  next wakeAt reason phase =>
    split at moved
    next due =>
      cases moved
      exact .wake phase due
    next => cases moved
  next => cases moved; exact .shutdown
  next => cases moved; exact .shutdown
  next => cases moved; exact .shutdown
  next => cases moved

theorem onText_fst (session : Session) (text : String) :
    (session.onText serde text).1 = (handleText serde text).1 := by
  rcases onText_cases serde session text with kept | ⟨reason, rejected⟩
  · rw [kept]
  · rw [rejected]

theorem onRead_fst (session : Session) (msg : Option (Except String Message))
    (replied : Except String Unit) :
    (session.onRead serde msg replied).1 = heard serde (.read msg replied) := by
  unfold Session.onRead
  split
  next => rfl
  next => rfl
  next => rfl
  next => cases replied <;> rfl
  next => rfl
  next => exact onText_fst serde session _
  next bytes =>
    simp only [heard]
    cases fromUtf8 bytes with
    | ok text => exact onText_fst serde session _
    | error => rfl
  next => rfl

theorem turn_notified (s : AccountWatch) (start : ℕ)
    (out : Option JsonValue × Except SessionResult Session) :
    (s.turn start out).notified = s.notified ++ out.1.toList := by
  unfold turn
  split
  next => rfl
  next result _ => cases result <;> rfl

/-- `on_notify` is called with what the event brings, once. -/
theorem step_notified {s t : AccountWatch} {e : WatchEvent} (moved : step serde s e = some t) :
    t.notified = s.notified ++ (heard serde e).toList := by
  unfold step at moved
  split at moved
  next => cases moved; simp [heard]
  next => cases moved; simp [heard]
  next => cases moved; simp [heard, endSession]
  next => cases moved; simp [heard]
  next => cases moved; simp [heard, endSession]
  next => cases moved; simp [heard]
  next =>
    split at moved
    next =>
      split at moved
      next => cases moved; simp [heard, endSession]
      next => cases moved
    next => cases moved
  next =>
    split at moved
    next =>
      cases moved
      rw [turn_notified]
      rfl
    next => cases moved
  next msg replied start session _ =>
    cases moved
    rw [turn_notified, onRead_fst]
  next =>
    split at moved
    next => cases moved; simp [heard]
    next => cases moved
  next => cases moved; simp [heard]
  next => cases moved; simp [heard]
  next => cases moved; simp [heard]
  next => cases moved

/-- Once the task has returned, only time passes. -/
theorem step_exited {s t : AccountWatch} {e : WatchEvent} (gone : s.phase = .exited)
    (moved : step serde s e = some t) : t.phase = .exited ∧ heard serde e = none := by
  cases e <;> simp only [step, gone, reduceCtorEq, Option.some.injEq] at moved
  cases moved
  exact ⟨rfl, rfl⟩

end AccountWatch

end TickLiq
