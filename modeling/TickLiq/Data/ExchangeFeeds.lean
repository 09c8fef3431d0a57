import TickLiq.Data.CoinbaseFeed

/-!
# The two exchange feeds

Where a shared price comes from, and how often a feed connects. Coinbase may reconnect at once
after a session that brought a price; every other attempt of either feed waits at least the
base of the backoff.
-/
namespace TickLiq

open Machine
open CexFeed (fromSecs CexPrice)

namespace CoinbaseFeed

variable (wire : Wire) (productId : String)

/-! ### Coinbase -/

/-- What an event writes to the shared price. -/
def writes (s : CoinbaseFeed) (e : FeedEvent) : Option (Option CexPrice) :=
  (brings wire productId e).map fun mid => some ⟨mid, s.now⟩

theorem step_state {s t : CoinbaseFeed} {e : FeedEvent}
    (moved : step wire productId s e = some t) :
    t.state = (writes wire productId s e).getD s.state := by
  cases step_moves wire productId moved with
  | priced text replied mid phase read => simp [writes, brings, read]
  | failed e phase which =>
    rcases which with ⟨error, rfl⟩ | ⟨error, rfl⟩ <;> rfl
  | idle e phase reading nothing => simp [writes, nothing]
  | healthy e phase ended nothing => simp [writes, nothing]
  | unhealthy e phase ended nothing => simp [writes, nothing]
  | _ => rfl

/-- A price that is held was brought by the last frame that brought one: a ticker of the product,
read at the time the price is stamped with, whose book was not crossed. -/
theorem price_from_ticker {now : ℕ} {t : CoinbaseFeed} {es : List FeedEvent} {cp : CexPrice}
    (played : run (step wire productId) (initial now) es = some t) (held : t.state = some cp) :
    ∃ p q text replied u v, es = p ++ .read (some (.ok (.text text))) replied :: q ∧
      run (step wire productId) (initial now) p = some u ∧ cp.updatedAt = u.now ∧
      SaneTicker wire text productId cp.price ∧ 0 < cp.price ∧
      step wire productId u (.read (some (.ok (.text text))) replied) = some v ∧
      ¬Occurs (step wire productId) v q fun _ e => (brings wire productId e).isSome = true := by
  rcases run_last_write (step wire productId) CoinbaseFeed.state (writes wire productId)
    (fun s e t moved => step_state wire productId moved) (initial now) t es played with
    ⟨same, _⟩ | ⟨p, e, q, u, v, b, split, reached, moved, wrote, last, quiet⟩
  · rw [held] at same
    cases same
  · obtain ⟨mid, brought, rfl⟩ := Option.map_eq_some_iff.mp wrote
    obtain rfl := Option.some.inj (held.symm.trans last)
    -- only a text frame brings a price
    obtain ⟨text, replied, rfl, read⟩ : ∃ text replied,
        e = .read (some (.ok (.text text))) replied ∧
          parseTickerMid wire text productId = some mid := by
      unfold brings at brought
      split at brought
      next text replied => exact ⟨text, replied, rfl, brought⟩
      next => cases brought
    have sane := parseTickerMid_some wire read
    refine ⟨p, q, text, replied, u, v, split, reached, rfl, sane, sane.positive, moved, ?_⟩
    simpa [writes] using quiet

def isConnect : FeedEvent → Bool
  | .connect => true
  | _ => false

/-- The backoff is one that the doubling reaches, and no sleep is longer than the cap. -/
structure Timed (s : CoinbaseFeed) : Prop where
  backoff : ∃ failures, s.backoff = connectRetry.delay failures
  asleep : ∀ wakeAt, s.phase = .backingOff wakeAt → wakeAt ≤ s.now + connectRetryMax

/-- The earliest time of the next attempt, unless a price comes first. -/
def due (s : CoinbaseFeed) : ℕ :=
  match s.phase with
  | .starting | .live _ true => s.now
  | .connecting | .live _ false => s.now + connectRetryBase
  | .backingOff wakeAt => wakeAt
  | .exited => s.now + connectRetryMax

variable {s t : CoinbaseFeed} {e : FeedEvent}

theorem timed_slept (timed : Timed s) : Timed { s with phase := .backingOff (s.now + s.backoff) } where
  backoff := timed.backoff
  asleep := by
    rintro _ ⟨⟩
    obtain ⟨failures, backoff⟩ := timed.backoff
    rw [backoff]
    exact Nat.add_le_add_left (Backoff.delay_le_cap connectRetry failures) _

theorem timed_moves (moved : Moves wire productId s e t) (timed : Timed s) : Timed t := by
  obtain ⟨failures, backoff⟩ := timed.backoff
  cases moved with
  | elapse nanos =>
    refine ⟨timed.backoff, fun wakeAt phase => ?_⟩
    have before := timed.asleep wakeAt phase
    dsimp only
    omega
  | failed | unhealthy => exact timed_slept timed
  | healthy => exact ⟨⟨0, rfl⟩, by rintro _ ⟨⟩⟩
  | wake =>
    refine ⟨⟨failures + 1, ?_⟩, by rintro _ ⟨⟩⟩
    rw [← Backoff.grow_delay, ← backoff]
  | _ => exact ⟨timed.backoff, by rintro _ ⟨⟩⟩

theorem due_moves (moved : Moves wire productId s e t) (timed : Timed s) :
    due s + (if isConnect e then connectRetryBase else 0) ≤
      due t + if firstPrice wire productId s e then connectRetryBase else 0 := by
  obtain ⟨failures, backoff⟩ := timed.backoff
  have sleeps : connectRetryBase ≤ s.backoff :=
    backoff ▸ Backoff.base_le_delay connectRetry failures
  cases moved with
  | elapse nanos =>
    simp only [due, isConnect, Bool.false_eq_true, if_false]
    split <;> omega
  | connect phase => simp [due, phase, isConnect]
  | failed e phase which =>
    have noConnect : isConnect e = false := by
      rcases which with ⟨error, rfl⟩ | ⟨error, rfl⟩ <;> rfl
    simp only [due, phase, noConnect, Bool.false_eq_true, if_false]
    omega
  | subscribed phase => simp [due, phase, isConnect]
  | @priced staleAt gotPrice text replied mid phase read =>
    cases gotPrice with
    | true => simp [due, phase, isConnect]
    -- the first price brings the next attempt forward by the base, which is its share
    | false => simp [due, phase, isConnect, firstPrice, brings, read]
  | @idle staleAt gotPrice e phase reading nothing =>
    obtain ⟨msg, replied, rfl⟩ := reading
    cases gotPrice <;> simp [due, phase, isConnect]
  | healthy e phase ended =>
    have noConnect : isConnect e = false := by
      rcases ended with rfl | ⟨msg, replied, rfl⟩ <;> rfl
    simp [due, phase, noConnect]
  | unhealthy e phase ended =>
    have noConnect : isConnect e = false := by
      rcases ended with rfl | ⟨msg, replied, rfl⟩ <;> rfl
    simp only [due, phase, noConnect, Bool.false_eq_true, if_false]
    omega
  | wake phase woken =>
    simp only [due, phase, isConnect, Bool.false_eq_true, if_false]
    omega
  | shutdown listening =>
    have long : connectRetryBase ≤ connectRetryMax := connectRetry.base_le_cap
    simp only [isConnect, Bool.false_eq_true, if_false]
    cases phase : s.phase with
    | connecting => exact absurd phase listening
    | starting | exited =>
      simp only [due, phase]
      omega
    | live staleAt gotPrice =>
      cases gotPrice <;> simp only [due, phase] <;> omega
    | backingOff wakeAt =>
      have bounded := timed.asleep wakeAt phase
      simp only [due, phase]
      omega

theorem paced : Paced (step wire productId) Timed now due (fun _ e => isConnect e)
    (firstPrice wire productId) connectRetryBase 0 where
  keeps _ _ _ timed moved := timed_moves wire productId (step_moves wire productId moved) timed
  clock _ _ _ _ moved := by
    cases step_moves wire productId moved with
    | elapse => exact Nat.le_add_right ..
    | _ => exact le_rfl
  moves _ _ _ timed moved := due_moves wire productId (step_moves wire productId moved) timed
  ready s e _ _ moved attempt := by
    cases e with
    | connect =>
      cases step_moves wire productId moved with
      | connect phase => simp [due, phase]
      | failed _ _ which => simp at which
      | idle _ _ reading => simp at reading
      | healthy _ _ ended => simp at ended
      | unhealthy _ _ ended => simp at ended
    | _ => cases attempt

/-- In no run does the feed try to connect more often than once, once more for every session that
brought a price, and once more for every five seconds it has been up. -/
theorem coinbase_connects_le {now : ℕ} {t : CoinbaseFeed} {es : List FeedEvent}
    (played : run (step wire productId) (initial now) es = some t) :
    now + fromSecs 5 * es.countP isConnect ≤
      t.now + fromSecs 5 * (tally (step wire productId) (firstPrice wire productId)
        (initial now) es + 1) := by
  have valid : Timed (initial now) := ⟨⟨0, rfl⟩, by rintro _ ⟨⟩⟩
  have bound := (paced wire productId).attempts_le played valid le_rfl
  rw [tally_event _ isConnect played] at bound
  exact bound

/-! A session that brings one price, ends, and is followed at once by the next. -/

/-- A ticker message, quoted at 100 and 102. -/
def tickText : String :=
  "\x7b\"type\":\"ticker\",\"product_id\":\"SOL-USD\",\"best_bid\":\"100.0\",\"best_ask\":\"102.0\"\x7d"

/-- One text is a ticker. -/
def sampleWire : Wire where
  ticker raw :=
    if raw = tickText then some ⟨some "ticker", some "SOL-USD", some "100.0", some "102.0"⟩
    else none
  parse := CexFeed.parseQuote

def oneTick : List FeedEvent :=
  [.connect, .subscribed, .read (some (.ok (.text tickText))) (.ok ())]

def priced : CoinbaseFeed := ⟨0, some ⟨(101 : ℕ), 0⟩, connectRetryBase, .live feedStaleTimeout true⟩

theorem price_from_ticker_one :
    run (step sampleWire "SOL-USD") (initial 0) oneTick = some priced ∧
    ∃ p q text replied u v, oneTick = p ++ .read (some (.ok (.text text))) replied :: q ∧
      run (step sampleWire "SOL-USD") (initial 0) p = some u ∧ 0 = u.now ∧
      SaneTicker sampleWire text "SOL-USD" (101 : ℕ) ∧ 0 < ((101 : ℕ) : Binary64) ∧
      step sampleWire "SOL-USD" u (.read (some (.ok (.text text))) replied) = some v ∧
      ¬Occurs (step sampleWire "SOL-USD") v q
        fun _ e => (brings sampleWire "SOL-USD" e).isSome = true := by
  have played : run (step sampleWire "SOL-USD") (initial 0) oneTick = some priced := by
    decide +kernel
  exact ⟨played, price_from_ticker sampleWire "SOL-USD" played rfl⟩

/-- The stream closes after the price. -/
def dropped : List FeedEvent := oneTick ++ [.read none (.ok ()), .connect]

theorem coinbase_connects_le_dropped : ∃ t,
    run (step sampleWire "SOL-USD") (initial 0) dropped = some t ∧
    0 + fromSecs 5 * dropped.countP isConnect ≤
      t.now + fromSecs 5 * (tally (step sampleWire "SOL-USD") (firstPrice sampleWire "SOL-USD")
        (initial 0) dropped + 1) := by
  have played : run (step sampleWire "SOL-USD") (initial 0) dropped =
      some ⟨0, some ⟨(101 : ℕ), 0⟩, connectRetryBase, .connecting⟩ := by decide +kernel
  exact ⟨_, played, coinbase_connects_le sampleWire "SOL-USD" played⟩

end CoinbaseFeed

/-! ### Binance -/

namespace CexFeed

structure BookTickerResponse where
  s : Option String
  b : Option String
  a : Option String
deriving DecidableEq

/-- `eq_ignore_ascii_case` -/
def eqIgnoreAsciiCase (x y : String) : Bool :=
  x.toList.map Char.toLower == y.toList.map Char.toLower

section Stream

variable (parse : String → Option Binary64) (expectedSymbol : String)

/-- The message is for the symbol that was asked for. -/
def expected (data : BookTickerResponse) : Bool :=
  match data.s with
  | some symbol => eqIgnoreAsciiCase symbol expectedSymbol
  | none => false

/-- The closure of `stream.on_message`. -/
def onMessage (now : ℕ) (data : BookTickerResponse) (state : Option CexPrice) :
    Bool × Option CexPrice :=
  if expected expectedSymbol data then applyBookTicker parse now data.b data.a state
  else (false, state)

inductive StreamEvent where
  | message (data : BookTickerResponse)
  | feed (e : FeedEvent)

def streamStep (s : Feed) : StreamEvent → Option Feed
  | .message data =>
    some { s with state := (onMessage parse expectedSymbol s.now data s.state).2 }
  -- quotes come in messages only
  | .feed (.bookTicker ..) => none
  | .feed e => step parse s e

/-- What a message comes to: a quote, or nothing at all. -/
def lower : StreamEvent → FeedEvent
  | .message data => if expected expectedSymbol data then .bookTicker data.b data.a else .elapse 0
  | .feed e => e

theorem streamStep_lower {s t : Feed} {e : StreamEvent}
    (moved : streamStep parse expectedSymbol s e = some t) :
    step parse s (lower expectedSymbol e) = some t := by
  cases e with
  | message data =>
    simp only [streamStep, onMessage, lower] at moved ⊢
    split at moved
    next matching =>
      rw [if_pos matching]
      exact moved
    next other =>
      rw [if_neg other]
      exact moved
  | feed e => cases e <;> first | exact moved | cases moved

/-- The middle of a quote that is accepted. -/
def middle (bid ask : Option String) : Option Binary64 :=
  match bid, ask with
  | some bid, some ask =>
    match parse bid, parse ask with
    | some bid, some ask =>
      if validateQuote bid ask then some ((bid + ask) / (2 : ℕ)) else none
    | _, _ => none
  | _, _ => none

theorem applyBookTicker_middle (now : ℕ) (bid ask : Option String) (state : Option CexPrice) :
    applyBookTicker parse now bid ask state =
      match middle parse bid ask with
      | some price => (true, some ⟨price, now⟩)
      | none => (false, state) := by
  cases bid with
  | none => rfl
  | some bid =>
    cases ask with
    | none => rfl
    | some ask =>
      simp only [applyBookTicker, middle]
      cases parse bid with
      | none => rfl
      | some bidF =>
        cases parse ask with
        | none => rfl
        | some askF =>
          dsimp only
          split <;> rfl

theorem middle_some {bid ask : Option String} {price : Binary64}
    (quoted : middle parse bid ask = some price) :
    ∃ bidStr askStr bidF askF, bid = some bidStr ∧ ask = some askStr ∧
      parse bidStr = some bidF ∧ parse askStr = some askF ∧
      SaneMiddle bidF askF price := by
  unfold middle at quoted
  split at quoted
  next bidStr askStr =>
    split at quoted
    next bidF askF bidRead askRead =>
      split at quoted
      next sane =>
        cases quoted
        exact ⟨bidStr, askStr, bidF, askF, rfl, rfl, bidRead, askRead, saneMiddle sane⟩
      next => cases quoted
    next => cases quoted
  next => cases quoted

/-- The middle that an event brings into the shared price. -/
def brings : StreamEvent → Option Binary64
  | .message data => if expected expectedSymbol data then middle parse data.b data.a else none
  | .feed _ => none

/-- What an event writes to the shared price. -/
def writes (s : Feed) (e : StreamEvent) : Option (Option CexPrice) :=
  (brings parse expectedSymbol e).map fun mid => some ⟨mid, s.now⟩

theorem streamStep_state {s t : Feed} {e : StreamEvent}
    (moved : streamStep parse expectedSymbol s e = some t) :
    t.state = (writes parse expectedSymbol s e).getD s.state := by
  cases e with
  | message data =>
    cases moved
    simp only [onMessage, writes, brings]
    split
    · rw [applyBookTicker_middle]
      cases middle parse data.b data.a <;> rfl
    · rfl
  | feed e =>
    have lowered := streamStep_lower parse expectedSymbol moved
    rcases step_state parse lowered with ⟨_, ⟨_, same⟩ | ⟨accepted, _⟩⟩
    · exact same
    · cases e <;> first | cases accepted | cases moved

/-- A price that is held was brought by the last message that brought one: for the symbol asked
for, at the time the price is stamped with, with a book that was not crossed. -/
theorem price_from_message {now : ℕ} {t : Feed} {es : List StreamEvent} {cp : CexPrice}
    (played : run (streamStep parse expectedSymbol) (starting now none) es = some t)
    (held : t.state = some cp) :
    ∃ p q data u v bidStr askStr bid ask, es = p ++ .message data :: q ∧
      run (streamStep parse expectedSymbol) (starting now none) p = some u ∧
      cp.updatedAt = u.now ∧ expected expectedSymbol data = true ∧
      data.b = some bidStr ∧ data.a = some askStr ∧
      parse bidStr = some bid ∧ parse askStr = some ask ∧ SaneMiddle bid ask cp.price ∧
      streamStep parse expectedSymbol u (.message data) = some v ∧
      ¬Occurs (streamStep parse expectedSymbol) v q
        fun _ e => (brings parse expectedSymbol e).isSome = true := by
  rcases run_last_write (streamStep parse expectedSymbol) Feed.state (writes parse expectedSymbol)
    (fun s e t moved => streamStep_state parse expectedSymbol moved) _ t es played with
    ⟨same, _⟩ | ⟨p, e, q, u, v, b, split, reached, moved, wrote, last, quiet⟩
  -- a feed starts without a price
  · rw [held] at same
    cases same
  · obtain ⟨mid, brought, rfl⟩ := Option.map_eq_some_iff.mp wrote
    obtain rfl := Option.some.inj (held.symm.trans last)
    cases e with
    | feed e => cases brought
    | message data =>
      simp only [brings] at brought
      split at brought
      next matching =>
        obtain ⟨bidStr, askStr, bid, ask, hasBid, hasAsk, bidRead, askRead, sane⟩ :=
          middle_some parse brought
        refine ⟨p, q, data, u, v, bidStr, askStr, bid, ask, split, reached, rfl, matching, hasBid,
          hasAsk, bidRead, askRead, sane, moved, ?_⟩
        simpa [writes] using quiet
      next => cases brought

end Stream

/-- A quote for the symbol in small letters, and one for another symbol. -/
def twoQuotes : List StreamEvent :=
  [.feed .connected, .message ⟨some "solusdt", some "100.0", some "102.0"⟩,
    .message ⟨some "BTCUSDT", some "102.0", some "102.0"⟩]

theorem price_from_message_two :
    ∃ t, run (streamStep parseQuote "SOLUSDT") (starting 0 none) twoQuotes = some t ∧
    ∃ p q data u v bidStr askStr bid ask, twoQuotes = p ++ .message data :: q ∧
      run (streamStep parseQuote "SOLUSDT") (starting 0 none) p = some u ∧ 0 = u.now ∧
      expected "SOLUSDT" data = true ∧ data.b = some bidStr ∧ data.a = some askStr ∧
      parseQuote bidStr = some bid ∧ parseQuote askStr = some ask ∧
      SaneMiddle bid ask (101 : ℕ) ∧
      streamStep parseQuote "SOLUSDT" u (.message data) = some v ∧
      ¬Occurs (streamStep parseQuote "SOLUSDT") v q
        fun _ e => (brings parseQuote "SOLUSDT" e).isSome = true := by
  have played : run (streamStep parseQuote "SOLUSDT") (starting 0 none) twoQuotes =
      some ⟨0, some ⟨(101 : ℕ), 0⟩, connectRetryBase, .monitoring 0 livenessCheckInterval⟩ := by
    decide +kernel
  exact ⟨_, played, price_from_message parseQuote "SOLUSDT" played
    (rfl : _ = some (⟨(101 : ℕ), 0⟩ : CexPrice))⟩

/-- An attempt that has come to its end. -/
def isAttempt : FeedEvent → Bool
  | .connected | .connectFailed => true
  | _ => false

def connectRetry : Backoff := ⟨connectRetryBase, connectRetryMax, by decide⟩

/-- The backoff is one that the doubling reaches, and no timer is set further than its interval. -/
structure Timed (s : Feed) : Prop where
  backoff : ∃ failures, s.backoff = connectRetry.delay failures
  asleep : ∀ wakeAt, s.phase = .backingOff wakeAt → wakeAt ≤ s.now + connectRetryMax
  ticking : ∀ sessionStarted nextTick, s.phase = .monitoring sessionStarted nextTick →
    nextTick ≤ s.now + livenessCheckInterval

/-- The earliest time of the next attempt. -/
def due (s : Feed) : ℕ :=
  match s.phase with
  | .connecting => s.now
  | .monitoring _ nextTick => nextTick
  | .backingOff wakeAt => wakeAt
  | .exited => s.now + connectRetryMax

section Pace

variable (parse : String → Option Binary64)

variable {s t : Feed} {e : FeedEvent}

theorem timed_step (moved : step parse s e = some t) (timed : Timed s) : Timed t := by
  obtain ⟨⟨failures, backoff⟩, asleep, ticking⟩ := timed
  cases e with
  | elapse nanos =>
    cases moved
    refine ⟨⟨failures, backoff⟩, ?_, ?_⟩
    · intro wakeAt phase
      have before := asleep wakeAt phase
      dsimp only
      omega
    · intro started nextTick phase
      have before := ticking started nextTick phase
      dsimp only
      omega
  | bookTicker =>
    cases moved
    exact ⟨⟨failures, backoff⟩, asleep, ticking⟩
  | connected =>
    simp only [step] at moved
    split at moved <;> cases moved
    -- a connection that stands resets the backoff to its base
    refine ⟨⟨0, rfl⟩, by rintro _ ⟨⟩, ?_⟩
    rintro _ _ ⟨⟩
    exact le_rfl
  | connectFailed =>
    simp only [step] at moved
    split at moved <;> cases moved
    refine ⟨⟨failures + 1, ?_⟩, ?_, by rintro _ _ ⟨⟩⟩
    -- a failure doubles the backoff up to its cap
    · rw [← Backoff.grow_delay, ← backoff]
      rfl
    · rintro _ ⟨⟩
      rw [backoff]
      exact Nat.add_le_add_left (Backoff.delay_le_cap connectRetry failures) _
  | retry =>
    simp only [step] at moved
    split at moved
    · split at moved <;> cases moved
      exact ⟨⟨failures, backoff⟩, by rintro _ ⟨⟩, by rintro _ _ ⟨⟩⟩
    · cases moved
  | livenessCheck =>
    simp only [step] at moved
    split at moved
    · split at moved
      next fired =>
        split at moved <;> cases moved
        · exact ⟨⟨failures, backoff⟩, by rintro _ ⟨⟩, by rintro _ _ ⟨⟩⟩
        · refine ⟨⟨failures, backoff⟩, by rintro _ ⟨⟩, ?_⟩
          rintro _ _ ⟨⟩
          exact Nat.add_le_add_right fired _
      next => cases moved
    · cases moved
  | shutdown =>
    simp only [step] at moved
    split at moved <;> cases moved
    exact ⟨⟨failures, backoff⟩, by rintro _ ⟨⟩, by rintro _ _ ⟨⟩⟩

theorem due_step (moved : step parse s e = some t) (timed : Timed s) :
    due s + (if isAttempt e then connectRetryBase else 0) ≤ due t := by
  obtain ⟨⟨failures, backoff⟩, asleep, ticking⟩ := timed
  have sleeps : connectRetryBase ≤ s.backoff :=
    backoff ▸ Backoff.base_le_delay connectRetry failures
  have often : connectRetryBase ≤ livenessCheckInterval := by decide
  have long : livenessCheckInterval ≤ connectRetryMax := by decide
  cases e with
  | elapse nanos =>
    cases moved
    simp only [due, isAttempt, Bool.false_eq_true, if_false]
    split <;> omega
  | bookTicker =>
    cases moved
    simp [due, isAttempt]
  | connected =>
    simp only [step] at moved
    split at moved <;> cases moved
    -- the session runs until its first liveness check at least
    next phase =>
      simp only [due, phase, isAttempt, if_true]
      omega
  | connectFailed =>
    simp only [step] at moved
    split at moved <;> cases moved
    -- the pause behind a failed attempt is the base at least
    next phase =>
      simp only [due, phase, isAttempt, if_true]
      omega
  | retry =>
    simp only [step] at moved
    split at moved
    next wakeAt phase =>
      split at moved <;> cases moved
      next woken =>
        simp only [due, phase, isAttempt, Bool.false_eq_true, if_false]
        omega
    next => cases moved
  | livenessCheck =>
    simp only [step] at moved
    split at moved
    next started nextTick phase =>
      split at moved
      next fired =>
        split at moved <;> cases moved <;>
          simp only [due, phase, isAttempt, Bool.false_eq_true, if_false] <;> omega
      next => cases moved
    next => cases moved
  | shutdown =>
    simp only [step] at moved
    split at moved <;> cases moved
    -- nothing is due any more: the bound lies behind the timers of every phase
    simp only [isAttempt, Bool.false_eq_true, if_false]
    cases phase : s.phase with
    | connecting | exited =>
      simp only [due, phase]
      omega
    | monitoring started nextTick =>
      have bounded := ticking started nextTick phase
      simp only [due, phase]
      omega
    | backingOff wakeAt =>
      have bounded := asleep wakeAt phase
      simp only [due, phase]
      omega

theorem paced : Paced (step parse) Timed Feed.now due (fun _ e => isAttempt e) (fun _ _ => false)
    connectRetryBase 0 where
  keeps _ _ _ timed moved := timed_step parse moved timed
  clock _ _ _ _ moved := (step_state parse moved).1
  moves _ _ _ timed moved := due_step parse moved timed
  ready s e t _ moved attempt := by
    cases e with
    | connected | connectFailed =>
      simp only [step] at moved
      split at moved
      next phase => simp [due, phase]
      next => cases moved
    | _ => cases attempt

/-- In no run does the feed try to connect more often than once, and once more for every five
seconds it has been up, whatever prices an earlier session has left. -/
theorem binance_attempts_le {now : ℕ} {state : Option CexPrice} {t : Feed} {es : List FeedEvent}
    (played : run (step parse) (starting now state) es = some t) :
    now + fromSecs 5 * es.countP isAttempt ≤ t.now + fromSecs 5 := by
  have valid : Timed (starting now state) := ⟨⟨0, rfl⟩, by rintro _ ⟨⟩, by rintro _ _ ⟨⟩⟩
  have bound := (paced parse).attempts_le played valid le_rfl
  have quiet : tally (step parse) (fun _ _ => false) (starting now state) es = 0 := by
    rw [tally_event _ (fun _ => false) played]
    simp
  rw [tally_event _ isAttempt played, quiet, Nat.zero_add, Nat.mul_one] at bound
  exact bound

end Pace

theorem binance_attempts_le_outage : ∃ t,
    run (step parseQuote) (starting 0 none) outage = some t ∧
    0 + fromSecs 5 * outage.countP isAttempt ≤ t.now + fromSecs 5 := by
  have played : run (step parseQuote) (starting 0 none) outage =
      some ⟨fromSecs 90, some ⟨(101 : ℕ), 0⟩, connectRetryBase,
        .monitoring (fromSecs 75) (fromSecs 90)⟩ := by decide +kernel
  exact ⟨_, played, binance_attempts_le parseQuote played⟩

end CexFeed

end TickLiq
