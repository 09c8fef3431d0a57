import TickLiq.Machine.Binary64
import TickLiq.Machine.Run

/-!
# The exchange price feed

`watch_binance_price` connects, monitors the session until it is stale, and connects
again. Staleness is read from the shared price, which outlives the sessions: a quote
left over from the session before counts against the new one from its first check.
-/
namespace TickLiq.CexFeed

open Machine
open Machine.Binary64

/-- `Duration::from_secs`, in nanoseconds. -/
def fromSecs (secs : ℕ) : ℕ := secs * 1000000000

def connectRetryBase : ℕ := fromSecs 5
def connectRetryMax : ℕ := fromSecs 300
def livenessCheckInterval : ℕ := fromSecs 15
def feedStaleTimeout : ℕ := fromSecs 60

structure CexPrice where
  price : Binary64
  updatedAt : ℕ
deriving DecidableEq

/-- Both sides finite and positive, and the book not crossed. -/
def validateQuote (bid ask : Binary64) : Bool :=
  bid.isFinite && ask.isFinite && decide (0 < bid) && decide (0 < ask) && decide (bid ≤ ask)

theorem validateQuote_reads {bid ask : Binary64} (sane : validateQuote bid ask = true) :
    ∃ a b, Reads bid a ∧ Reads ask b ∧ 0 < a ∧ a ≤ b := by
  simp only [validateQuote, Bool.and_eq_true, decide_eq_true_eq] at sane
  obtain ⟨⟨⟨⟨bidFinite, askFinite⟩, positive⟩, _⟩, uncrossed⟩ := sane
  obtain ⟨a, bidReads⟩ := exists_reads bidFinite
  obtain ⟨b, askReads⟩ := exists_reads askFinite
  exact ⟨a, b, bidReads, askReads, (reads_zero.lt_iff bidReads).mp positive,
    (bidReads.le_iff askReads).mp uncrossed⟩

/-- A sane quote and its middle in `f64`, which lies between the sides unless their sum
overflows. -/
structure SaneMiddle (bid ask price : Binary64) : Prop where
  sane : validateQuote bid ask = true
  middle : price = (bid + ask) / (2 : ℕ)
  positive : 0 < price
  above : bid ≤ price
  below : price ≤ ask ∨ price = .inf false

theorem saneMiddle {bid ask : Binary64} (sane : validateQuote bid ask = true) :
    SaneMiddle bid ask ((bid + ask) / (2 : ℕ)) := by
  obtain ⟨a, b, bidReads, askReads, positive, uncrossed⟩ := validateQuote_reads sane
  have two : Reads ((2 : ℕ) : Binary64) (2 : ℕ) := reads_natCast (by decide)
  have nonzero : ((2 : ℕ) : ℚ) ≠ 0 := by norm_num
  have sum := bidReads.add askReads
  by_cases bounded : |nearest (a + b)| < overflow
  · -- a sum that is rounded to twice a side at the most has its half there
    have least : a * 2 ≤ nearest (a + b) :=
      le_nearest bidReads.representable.double (by linarith)
    have most : nearest (a + b) ≤ b * 2 := nearest_le askReads.representable.double (by linarith)
    have lower : a ≤ nearest (a + b) / (2 : ℕ) := by
      rw [Nat.cast_ofNat]
      linarith
    have upper : nearest (a + b) / (2 : ℕ) ≤ b := by
      rw [Nat.cast_ofNat]
      linarith
    have middle : (bid + ask) / (2 : ℕ) = Binary64.round (nearest (a + b) / (2 : ℕ)) := by
      rw [sum, (reads_round bounded).div two nonzero]
    have half := reads_round_of_le askReads.representable
      (abs_le.mpr ⟨by linarith, upper⟩) ((le_abs_self b).trans_lt askReads.bounded)
    have above := le_nearest bidReads.representable lower
    rw [← middle] at half
    exact ⟨sane, rfl, (reads_zero.lt_iff half).mpr (positive.trans_le above),
      (bidReads.le_iff half).mpr above,
      Or.inl ((half.le_iff askReads).mpr (nearest_le askReads.representable upper))⟩
  · have past : Binary64.round (a + b) = .inf false := by
      rw [Binary64.round, dif_neg bounded, decide_eq_false (by linarith)]
    have middle : (bid + ask) / (2 : ℕ) = .inf false := by
      rw [sum, past, two.inf_div, decide_eq_false (by norm_num)]
      rfl
    refine ⟨sane, rfl, ?_, ?_, Or.inr middle⟩
    · rw [middle]
      exact reads_zero.lt_inf
    · rw [middle]
      exact bidReads.lt_inf.1

section Feed

-- `parse` accepts texts that are no finite number
variable (parse : String → Option Binary64)

/-- The flag says whether the state was written. -/
def applyBookTicker (now : ℕ) (bid ask : Option String) (state : Option CexPrice) :
    Bool × Option CexPrice :=
  match bid, ask with
  | some bid, some ask =>
    match parse bid, parse ask with
    | some bid, some ask =>
      if validateQuote bid ask then
        (true, some { price := (bid + ask) / (2 : ℕ), updatedAt := now })
      else (false, state)
    | _, _ => (false, state)
  | _, _ => (false, state)

/-- Where `watch_binance_price` is. -/
inductive FeedPhase where
  | connecting
  | monitoring (sessionStarted nextTick : ℕ)
  | backingOff (wakeAt : ℕ)
  | exited
deriving DecidableEq

structure Feed where
  now : ℕ
  state : Option CexPrice
  backoff : ℕ
  phase : FeedPhase
deriving DecidableEq

/-- A connect attempt about to start, with whatever price an earlier session has left. -/
def starting (now : ℕ) (state : Option CexPrice) : Feed :=
  ⟨now, state, connectRetryBase, .connecting⟩

inductive FeedEvent where
  | elapse (nanos : ℕ)
  | bookTicker (bid ask : Option String)
  | connected
  | connectFailed
  /-- The backoff has elapsed. -/
  | retry
  | livenessCheck
  /-- The task sees the shutdown broadcast. -/
  | shutdown
deriving DecidableEq

/-- `stale` in `monitor_session`. -/
def isStale (now sessionStarted : ℕ) : Option CexPrice → Bool
  | some cp => decide (feedStaleTimeout < now - cp.updatedAt)
  | none => decide (feedStaleTimeout < now - sessionStarted)

/-- Quotes arrive at any time; a timer may fire late, but never early. -/
def step (s : Feed) : FeedEvent → Option Feed
  | .elapse nanos => some { s with now := s.now + nanos }
  | .bookTicker bid ask => some { s with state := (applyBookTicker parse s.now bid ask s.state).2 }
  | .connected =>
    match s.phase with
    | .connecting => some { s with
        backoff := connectRetryBase
        phase := .monitoring s.now (s.now + livenessCheckInterval) }
    | _ => none
  | .connectFailed =>
    match s.phase with
    | .connecting => some { s with
        backoff := min (s.backoff * 2) connectRetryMax
        phase := .backingOff (s.now + s.backoff) }
    | _ => none
  | .retry =>
    match s.phase with
    | .backingOff wakeAt => if wakeAt ≤ s.now then some { s with phase := .connecting } else none
    | _ => none
  | .livenessCheck =>
    match s.phase with
    | .monitoring sessionStarted nextTick =>
      if nextTick ≤ s.now then
        -- a stale session is disconnected, and the next attempt follows at once
        if isStale s.now sessionStarted s.state then some { s with phase := .connecting }
        else some { s with phase := .monitoring sessionStarted (nextTick + livenessCheckInterval) }
      else none
    | _ => none
  | .shutdown =>
    match s.phase with
    | .exited => none
    | _ => some { s with phase := .exited }

/-- The event writes a quote to the shared price. -/
def Accepts (s : Feed) : FeedEvent → Prop
  | .bookTicker bid ask => (applyBookTicker parse s.now bid ask s.state).1 = true
  | _ => False

theorem applyBookTicker_cases (now : ℕ) (bid ask : Option String) (state : Option CexPrice) :
    applyBookTicker parse now bid ask state = (false, state) ∨
      ∃ price, applyBookTicker parse now bid ask state = (true, some ⟨price, now⟩) := by
  unfold applyBookTicker
  split
  · split
    · split
      · exact Or.inr ⟨_, rfl⟩
      · exact Or.inl rfl
    · exact Or.inl rfl
  · exact Or.inl rfl

/-- Time passes forward, and only an accepted quote changes the shared price. -/
theorem step_state {s t : Feed} {e : FeedEvent} (moved : step parse s e = some t) :
    s.now ≤ t.now ∧ (¬Accepts parse s e ∧ t.state = s.state ∨
      Accepts parse s e ∧ ∃ price, t.state = some ⟨price, s.now⟩) := by
  cases e with
  | elapse nanos =>
    cases moved
    exact ⟨Nat.le_add_right .., Or.inl ⟨id, rfl⟩⟩
  | bookTicker bid ask =>
    cases moved
    refine ⟨le_rfl, ?_⟩
    simp only [Accepts]
    -- only a quote that passes the checks writes the state
    rcases applyBookTicker_cases parse s.now bid ask s.state with turned | ⟨price, written⟩
    · rw [turned]
      exact Or.inl ⟨Bool.false_ne_true, rfl⟩
    · rw [written]
      exact Or.inr ⟨rfl, price, rfl⟩
  | connected =>
    simp only [step] at moved
    split at moved <;> cases moved
    exact ⟨le_rfl, Or.inl ⟨id, rfl⟩⟩
  | connectFailed =>
    simp only [step] at moved
    split at moved <;> cases moved
    exact ⟨le_rfl, Or.inl ⟨id, rfl⟩⟩
  | retry =>
    simp only [step] at moved
    split at moved
    · split at moved <;> cases moved
      exact ⟨le_rfl, Or.inl ⟨id, rfl⟩⟩
    · cases moved
  | livenessCheck =>
    simp only [step] at moved
    split at moved
    · split at moved
      · split at moved <;> cases moved <;> exact ⟨le_rfl, Or.inl ⟨id, rfl⟩⟩
      · cases moved
    · cases moved
  | shutdown =>
    simp only [step] at moved
    split at moved <;> cases moved
    exact ⟨le_rfl, Or.inl ⟨id, rfl⟩⟩

/-! ### Quotes and sessions of a run -/

/-- The price has not been written in the future. -/
def Clocked (s : Feed) : Prop := ∀ cp, s.state = some cp → cp.updatedAt ≤ s.now

/-- No quote was accepted at `bound` or later, not even before the run. -/
def NoQuoteSince (s : Feed) (es : List FeedEvent) (bound : ℕ) : Prop :=
  ¬Occurs (step parse) s es (fun u e => Accepts parse u e ∧ bound ≤ u.now) ∧
    ∀ cp, s.state = some cp → cp.updatedAt < bound

theorem clocked_run {s t : Feed} {es : List FeedEvent} (played : run (step parse) s es = some t)
    (initial : Clocked s) : Clocked t := by
  apply run_invariant (step parse) Clocked _ s t es played initial
  intro u e v clocked moved cp held
  obtain ⟨later, ⟨_, same⟩ | ⟨_, price, written⟩⟩ := step_state parse moved
  · rw [same] at held
    exact (clocked cp held).trans later
  · rw [written] at held
    cases held
    exact later

/-- The shared price tells of all quotes: before any time that it is before, so were they. -/
theorem noQuoteSince_of_state {s t : Feed} {es : List FeedEvent}
    (played : run (step parse) s es = some t) (initial : Clocked s) (bound : ℕ)
    (before : ∀ cp, t.state = some cp → cp.updatedAt < bound) : NoQuoteSince parse s es bound := by
  refine run_history (step parse) s (fun es t => (∀ cp, t.state = some cp → cp.updatedAt < bound) →
    NoQuoteSince parse s es bound) ?_ ?_ es t played before
  · intro start
    exact ⟨not_occurs_nil _ _ _, start⟩
  · intro es u e v reached ih moved after
    have clocked := clocked_run parse reached initial
    obtain ⟨_, ⟨refused, same⟩ | ⟨_, price, written⟩⟩ := step_state parse moved
    · rw [same] at after
      obtain ⟨quiet, start⟩ := ih after
      refine ⟨?_, start⟩
      rw [occurs_concat (step parse) s u es e _ reached]
      rintro (earlier | here)
      · exact quiet earlier
      · exact refused here.1
    · -- what was held before the new quote is no later than it
      have newest : u.now < bound := after _ written
      obtain ⟨quiet, start⟩ := ih fun cp held => (clocked cp held).trans_lt newest
      refine ⟨?_, start⟩
      rw [occurs_concat (step parse) s u es e _ reached]
      rintro (earlier | here)
      · exact quiet earlier
      · omega

/-- A liveness check that ends the session. -/
def TearsDown (s : Feed) (sessionStarted : ℕ) : Prop :=
  ∃ nextTick, s.phase = .monitoring sessionStarted nextTick ∧ nextTick ≤ s.now ∧
    isStale s.now sessionStarted s.state = true

/-- No quote for a minute, in a session that has been monitored for more than one. -/
def FullGrace (s : Feed) (es : List FeedEvent) (u : Feed) (sessionStarted : ℕ) : Prop :=
  NoQuoteSince parse s es (u.now - feedStaleTimeout) ∧
    feedStaleTimeout < u.now - sessionStarted

/-- At a check in the first minute of a session, a quote left over from before the session is
not over a minute old. -/
def LeftoverFresh (s : Feed) (e : FeedEvent) : Prop :=
  e = .livenessCheck → ∀ sessionStarted nextTick cp,
    s.phase = .monitoring sessionStarted nextTick → s.now - sessionStarted ≤ feedStaleTimeout →
    s.state = some cp → cp.updatedAt < sessionStarted → s.now - cp.updatedAt ≤ feedStaleTimeout

instance (s : Feed) (e : FeedEvent) : Decidable (LeftoverFresh s e) :=
  have : Decidable (∀ sessionStarted nextTick cp,
      s.phase = .monitoring sessionStarted nextTick → s.now - sessionStarted ≤ feedStaleTimeout →
      s.state = some cp → cp.updatedAt < sessionStarted →
      s.now - cp.updatedAt ≤ feedStaleTimeout) :=
    match phase : s.phase, held : s.state with
    | .monitoring sessionStarted _, some cp =>
      decidable_of_iff (s.now - sessionStarted ≤ feedStaleTimeout →
        cp.updatedAt < sessionStarted → s.now - cp.updatedAt ≤ feedStaleTimeout) (by
          constructor
          · rintro fresh _ _ _ ⟨⟩ young ⟨⟩ leftover
            exact fresh young leftover
          · intro fresh young leftover
            exact fresh _ _ _ rfl young rfl leftover)
    | .monitoring .., none => isTrue (by rintro _ _ _ _ _ ⟨⟩)
    | .connecting, _ | .backingOff _, _ | .exited, _ => isTrue (by rintro _ _ _ ⟨⟩)
  inferInstanceAs (Decidable (_ → _))

/-- The first half of the grace always holds. -/
theorem tearsDown_quiet {s u : Feed} {es : List FeedEvent} {sessionStarted : ℕ}
    (played : run (step parse) s es = some u) (initial : Clocked s)
    (ends : TearsDown u sessionStarted) :
    NoQuoteSince parse s es (u.now - feedStaleTimeout) := by
  obtain ⟨_, _, _, stale⟩ := ends
  apply noQuoteSince_of_state parse played initial
  intro cp held
  simp only [held, isStale, decide_eq_true_iff] at stale
  omega

theorem tearsDown_old {s : Feed} {sessionStarted : ℕ} (ends : TearsDown s sessionStarted)
    (fresh : LeftoverFresh s .livenessCheck) : feedStaleTimeout < s.now - sessionStarted := by
  obtain ⟨nextTick, phase, _, stale⟩ := ends
  by_contra young
  cases held : s.state with
  | none =>
    simp only [held, isStale, decide_eq_true_iff] at stale
    omega
  | some cp =>
    simp only [held, isStale, decide_eq_true_iff] at stale
    have leftover := fresh rfl sessionStarted nextTick cp phase (not_lt.mp young) held
    -- a quote of the session itself is younger than the session
    omega

/-- A session is torn down only after its full grace period, exactly in the runs where no
left-over quote is over a minute old at a check in the first minute of a session. -/
theorem full_grace_iff {s t : Feed} {es : List FeedEvent}
    (played : run (step parse) s es = some t) (initial : Clocked s) :
    (∀ p q u sessionStarted, es = p ++ .livenessCheck :: q → run (step parse) s p = some u →
        TearsDown u sessionStarted → FullGrace parse s p u sessionStarted) ↔
      Guarded (step parse) LeftoverFresh s es := by
  rw [guarded_iff_split]
  constructor
  · intro graced p e q split u reached check sessionStarted nextTick cp phase young held leftover
    subst check
    by_contra old
    have enabled : nextTick ≤ u.now := by
      obtain ⟨v, w, here, moved, _⟩ := (run_split (step parse) s t p q _).mp (split ▸ played)
      cases reached.symm.trans here
      by_contra early
      simp [step, phase, early] at moved
    have stale : isStale u.now sessionStarted u.state = true := by
      simp only [held, isStale, decide_eq_true_iff]
      omega
    have full := (graced p q u sessionStarted split reached ⟨nextTick, phase, enabled, stale⟩).2
    omega
  · intro guarded p q u sessionStarted split reached ends
    exact ⟨tearsDown_quiet parse reached initial ends,
      tearsDown_old ends (guarded p _ q split u reached)⟩

end Feed

/-! ### An outage over two sessions -/

/-- What `parse` makes of the two quotes below. -/
def parseQuote (text : String) : Option Binary64 :=
  if text = "100.0" then some (100 : ℕ)
  else if text = "102.0" then some (102 : ℕ)
  else none

/-- A liveness check in time, and no quote before it. -/
def quietCheck : List FeedEvent := [.elapse livenessCheckInterval, .livenessCheck]

/-- One quote, then silence: the first session is given up at its fifth check. -/
def silence : List FeedEvent :=
  [.connected, .bookTicker (some "100.0") (some "102.0")] ++
    quietCheck ++ quietCheck ++ quietCheck ++ quietCheck ++ quietCheck

/-- The next session starts with the price that is left, and brings one of its own in time. -/
def recovery : List FeedEvent :=
  silence ++ [.connected, .elapse (fromSecs 1), .bookTicker (some "100.0") (some "100.0")] ++
    quietCheck

theorem full_grace_iff_silent :
    (run (step parseQuote) (starting 0 none) silence).map Feed.phase = some .connecting ∧
    Guarded (step parseQuote) LeftoverFresh (starting 0 none) recovery ∧
      ∀ p q u sessionStarted, recovery = p ++ .livenessCheck :: q →
        run (step parseQuote) (starting 0 none) p = some u → TearsDown u sessionStarted →
        FullGrace parseQuote (starting 0 none) p u sessionStarted := by
  have clocked : Clocked (starting 0 none) := by
    intro cp held
    cases held
  have played : run (step parseQuote) (starting 0 none) recovery =
      some ⟨fromSecs 91, some ⟨(100 : ℕ), fromSecs 76⟩, connectRetryBase,
        .monitoring (fromSecs 75) (fromSecs 105)⟩ := by decide +kernel
  have fresh : Guarded (step parseQuote) LeftoverFresh (starting 0 none) recovery := by
    decide +kernel
  exact ⟨by decide +kernel, fresh, (full_grace_iff parseQuote played clocked).mpr fresh⟩

/-- The next session brings none, and is given up at its first check. -/
def outage : List FeedEvent := silence ++ [.connected, .elapse livenessCheckInterval]

theorem outage_cuts_grace : ∃ u t, run (step parseQuote) (starting 0 none) outage = some u ∧
    TearsDown u (fromSecs 75) ∧ step parseQuote u .livenessCheck = some t ∧
    t.phase = .connecting ∧ u.now - fromSecs 75 = fromSecs 15 ∧
    ¬FullGrace parseQuote (starting 0 none) outage u (fromSecs 75) := by
  refine ⟨⟨fromSecs 90, some ⟨(101 : ℕ), 0⟩, connectRetryBase, .monitoring (fromSecs 75) (fromSecs 90)⟩,
    _, by decide +kernel, ⟨fromSecs 90, rfl, le_rfl, rfl⟩, rfl, rfl, rfl, ?_⟩
  intro full
  exact absurd full.2 (by decide)

end TickLiq.CexFeed
