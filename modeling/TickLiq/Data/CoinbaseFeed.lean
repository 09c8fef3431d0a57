import TickLiq.Data.AccountWatch

/-!
# The Coinbase feed

`watch_coinbase_price` connects, reads tickers, and connects again when the session has ended.
A session that has brought a price is followed by the next at once; after any other the
backoff is slept off first.
-/
namespace TickLiq

open Machine
open CexFeed (fromSecs CexPrice SaneMiddle saneMiddle validateQuote)
open AccountWatch (Message)

namespace CoinbaseFeed

def connectRetryBase : ℕ := fromSecs 5
def connectRetryMax : ℕ := fromSecs 300
def feedStaleTimeout : ℕ := fromSecs 60

def connectRetry : Backoff := ⟨connectRetryBase, connectRetryMax, by decide⟩

structure CoinbaseTicker where
  msgType : Option String
  productId : Option String
  bestBid : Option String
  bestAsk : Option String
deriving DecidableEq

/-- What is used of the crates and of the language to read a frame. -/
structure Wire where
  /-- `serde_json::from_str` into a ticker. -/
  ticker : String → Option CoinbaseTicker
  parse : String → Option Binary64

inductive SessionEnd where
  | shutdown
  | connectError (reason : String)
  | ended (reason : String) (healthy : Bool)
deriving DecidableEq

inductive FeedPhase where
  /-- The top of the loop. -/
  | starting
  | connecting
  | live (staleAt : ℕ) (gotPrice : Bool)
  | backingOff (wakeAt : ℕ)
  | exited
deriving DecidableEq

inductive FeedEvent where
  | elapse (nanos : ℕ)
  /-- An attempt starts. -/
  | connect
  | connectFailed (error : String)
  /-- Connected, and the subscribe frame is sent. -/
  | subscribed
  | subscribeFailed (error : String)
  /-- `stream.next()` resolves in time; a ping is answered by a pong that may fail to be sent. -/
  | read (msg : Option (Except String Message)) (replied : Except String Unit)
  | timeout
  /-- The backoff has elapsed. -/
  | wake
  /-- The task sees the shutdown broadcast. -/
  | shutdown

section Ticker

variable (wire : Wire)

def parseTickerMid (raw expectedProduct : String) : Option Binary64 :=
  match wire.ticker raw with
  | none => none
  | some msg =>
    if msg.msgType ≠ some "ticker" then none
    -- what the server routes is not trusted
    else if msg.productId ≠ some expectedProduct then none
    else do
      let bidStr ← msg.bestBid
      let askStr ← msg.bestAsk
      let bid ← wire.parse bidStr
      let ask ← wire.parse askStr
      if validateQuote bid ask then some ((bid + ask) / (2 : ℕ)) else none

/-- A ticker of the product with a book that is not crossed, and its middle in `f64`. -/
structure SaneTicker (raw product : String) (price : Binary64) : Prop where
  quoted : ∃ msg bidStr askStr bid ask, wire.ticker raw = some msg ∧
    msg.msgType = some "ticker" ∧ msg.productId = some product ∧
    msg.bestBid = some bidStr ∧ msg.bestAsk = some askStr ∧
    wire.parse bidStr = some bid ∧ wire.parse askStr = some ask ∧
    SaneMiddle bid ask price

theorem parseTickerMid_some {raw product : String} {price : Binary64}
    (read : parseTickerMid wire raw product = some price) : SaneTicker wire raw product price := by
  unfold parseTickerMid at read
  split at read
  next => cases read
  next msg parsed =>
    split at read
    next => cases read
    next isTicker =>
      split at read
      next => cases read
      next isProduct =>
        simp only [Option.bind_eq_bind, Option.bind_eq_some_iff] at read
        obtain ⟨bidStr, hasBid, askStr, hasAsk, bid, bidRead, ask, askRead, checked⟩ := read
        split at checked
        next sane =>
          cases checked
          exact ⟨msg, bidStr, askStr, bid, ask, parsed, not_not.mp isTicker,
            not_not.mp isProduct, hasBid, hasAsk, bidRead, askRead, saneMiddle sane⟩
        next => cases checked

theorem SaneTicker.positive {raw product : String} {price : Binary64}
    (ticker : SaneTicker wire raw product price) : 0 < price := by
  obtain ⟨_, _, _, _, _, _, _, _, _, _, _, _, middle⟩ := ticker.quoted
  exact middle.positive

end Ticker

end CoinbaseFeed

open CoinbaseFeed in
structure CoinbaseFeed where
  now : ℕ
  state : Option CexPrice
  backoff : ℕ
  phase : FeedPhase
deriving DecidableEq

namespace CoinbaseFeed

def initial (now : ℕ) : CoinbaseFeed := ⟨now, none, connectRetryBase, .starting⟩

/-- What `watch_coinbase_price` does with the end of a session. -/
def endSession (s : CoinbaseFeed) : SessionEnd → CoinbaseFeed
  | .shutdown => { s with phase := .exited }
  | .connectError _ => { s with phase := .backingOff (s.now + s.backoff) }
  | .ended _ healthy =>
    if healthy then { s with backoff := connectRetryBase, phase := .starting }
    else { s with phase := .backingOff (s.now + s.backoff) }

variable (wire : Wire) (productId : String)

/-- The arm of the stream; every turn of the loop sets the timeout anew. -/
def onRead (s : CoinbaseFeed) (gotPrice : Bool) (msg : Option (Except String Message))
    (replied : Except String Unit) : CoinbaseFeed :=
  match msg with
  | none => s.endSession (.ended "stream closed" gotPrice)
  | some (.error e) => s.endSession (.ended ("stream error: " ++ e) gotPrice)
  | some (.ok (.text text)) =>
    match parseTickerMid wire text productId with
    | some mid => { s with
        state := some ⟨mid, s.now⟩
        phase := .live (s.now + feedStaleTimeout) true }
    | none => { s with phase := .live (s.now + feedStaleTimeout) gotPrice }
  | some (.ok .close) => s.endSession (.ended "server closed connection" gotPrice)
  | some (.ok (.ping _)) =>
    match replied with
    | .ok () => { s with phase := .live (s.now + feedStaleTimeout) gotPrice }
    | .error e => s.endSession (.ended ("pong send: " ++ e) gotPrice)
  | some (.ok _) => { s with phase := .live (s.now + feedStaleTimeout) gotPrice }

def step (s : CoinbaseFeed) (e : FeedEvent) : Option CoinbaseFeed :=
  match e, s.phase with
  | .elapse nanos, _ => some { s with now := s.now + nanos }
  | .connect, .starting => some { s with phase := .connecting }
  | .connectFailed error, .connecting =>
    some (s.endSession (.connectError ("connect_async: " ++ error)))
  | .subscribeFailed error, .connecting =>
    some (s.endSession (.connectError ("subscribe send: " ++ error)))
  | .subscribed, .connecting => some { s with phase := .live (s.now + feedStaleTimeout) false }
  | .read msg replied, .live _ gotPrice => some (s.onRead wire productId gotPrice msg replied)
  | .timeout, .live staleAt gotPrice =>
    if staleAt ≤ s.now then some (s.endSession (.ended "no frame for >60s" gotPrice)) else none
  | .wake, .backingOff wakeAt =>
    if wakeAt ≤ s.now then
      some { s with backoff := connectRetry.grow s.backoff, phase := .starting }
    else none
  -- while a connect or a subscribe is under way nobody listens for the shutdown
  | .shutdown, .starting | .shutdown, .live .. | .shutdown, .backingOff .. =>
    some { s with phase := .exited }
  | _, _ => none

/-- The middle that an event brings into the shared price. -/
def brings : FeedEvent → Option Binary64
  | .read (some (.ok (.text text))) _ => parseTickerMid wire text productId
  | _ => none

/-- The first price of a session. -/
def firstPrice (s : CoinbaseFeed) (e : FeedEvent) : Bool :=
  match s.phase with
  | .live _ false => (brings wire productId e).isSome
  | _ => false

/-! ### What a step does -/

/-- What each enabled event does. -/
inductive Moves (s : CoinbaseFeed) : FeedEvent → CoinbaseFeed → Prop where
  | elapse (nanos : ℕ) : Moves s (.elapse nanos) { s with now := s.now + nanos }
  | connect (phase : s.phase = .starting) : Moves s .connect { s with phase := .connecting }
  | failed (e : FeedEvent) (phase : s.phase = .connecting)
      (which : (∃ error, e = .connectFailed error) ∨ ∃ error, e = .subscribeFailed error) :
    Moves s e { s with phase := .backingOff (s.now + s.backoff) }
  | subscribed (phase : s.phase = .connecting) :
    Moves s .subscribed { s with phase := .live (s.now + feedStaleTimeout) false }
  | priced {staleAt : ℕ} {gotPrice : Bool} (text : String) (replied : Except String Unit)
      (mid : Binary64) (phase : s.phase = .live staleAt gotPrice)
      (read : parseTickerMid wire text productId = some mid) :
    Moves s (.read (some (.ok (.text text))) replied)
      { s with state := some ⟨mid, s.now⟩, phase := .live (s.now + feedStaleTimeout) true }
  | idle {staleAt : ℕ} {gotPrice : Bool} (e : FeedEvent) (phase : s.phase = .live staleAt gotPrice)
      (reading : ∃ msg replied, e = .read msg replied) (nothing : brings wire productId e = none) :
    Moves s e { s with phase := .live (s.now + feedStaleTimeout) gotPrice }
  | healthy {staleAt : ℕ} (e : FeedEvent) (phase : s.phase = .live staleAt true)
      (ended : e = .timeout ∨ ∃ msg replied, e = .read msg replied)
      (nothing : brings wire productId e = none) :
    Moves s e { s with backoff := connectRetryBase, phase := .starting }
  | unhealthy {staleAt : ℕ} (e : FeedEvent) (phase : s.phase = .live staleAt false)
      (ended : e = .timeout ∨ ∃ msg replied, e = .read msg replied)
      (nothing : brings wire productId e = none) :
    Moves s e { s with phase := .backingOff (s.now + s.backoff) }
  | wake {wakeAt : ℕ} (phase : s.phase = .backingOff wakeAt) (due : wakeAt ≤ s.now) :
    Moves s .wake { s with backoff := connectRetry.grow s.backoff, phase := .starting }
  | shutdown (listening : s.phase ≠ .connecting) : Moves s .shutdown { s with phase := .exited }

/-- A session that has ended is healthy or not by whether it brought a price. -/
theorem moves_ended {s : CoinbaseFeed} {staleAt : ℕ} {gotPrice : Bool} {e : FeedEvent}
    (reason : String) (phase : s.phase = .live staleAt gotPrice)
    (ended : e = .timeout ∨ ∃ msg replied, e = .read msg replied)
    (nothing : brings wire productId e = none) :
    Moves wire productId s e (s.endSession (.ended reason gotPrice)) := by
  cases gotPrice with
  | true => exact .healthy e phase ended nothing
  | false => exact .unhealthy e phase ended nothing

theorem step_moves {s t : CoinbaseFeed} {e : FeedEvent}
    (moved : step wire productId s e = some t) : Moves wire productId s e t := by
  unfold step at moved
  split at moved
  next _ nanos => cases moved; exact .elapse nanos
  next phase => cases moved; exact .connect phase
  next error phase => cases moved; exact .failed _ phase (Or.inl ⟨error, rfl⟩)
  next error phase => cases moved; exact .failed _ phase (Or.inr ⟨error, rfl⟩)
  next phase => cases moved; exact .subscribed phase
  next msg replied staleAt gotPrice phase =>
    cases moved
    unfold onRead
    split
    -- the end of the stream and an error on it end the session
    next => exact moves_ended _ _ _ phase (Or.inr ⟨_, _, rfl⟩) rfl
    next => exact moves_ended _ _ _ phase (Or.inr ⟨_, _, rfl⟩) rfl
    next text =>
      split
      next mid read => exact .priced text replied mid phase read
      next nothing => exact .idle _ phase ⟨_, _, rfl⟩ nothing
    next => exact moves_ended _ _ _ phase (Or.inr ⟨_, _, rfl⟩) rfl
    next =>
      cases replied with
      | ok => exact .idle _ phase ⟨_, _, rfl⟩ rfl
      | error e => exact moves_ended _ _ _ phase (Or.inr ⟨_, _, rfl⟩) rfl
    -- other frames only show that the peer lives
    next noText _ _ =>
      refine .idle _ phase ⟨_, _, rfl⟩ ?_
      unfold brings
      split
      next text _ same =>
        cases same
        exact absurd rfl (noText text)
      next => rfl
  next staleAt gotPrice phase =>
    split at moved
    next =>
      cases moved
      exact moves_ended _ _ _ phase (Or.inl rfl) rfl
    next => cases moved
  next wakeAt phase =>
    split at moved
    next due =>
      cases moved
      exact .wake phase due
    next => cases moved
  next phase => cases moved; exact .shutdown (by rw [phase]; rintro ⟨⟩)
  next phase => cases moved; exact .shutdown (by rw [phase]; rintro ⟨⟩)
  next phase => cases moved; exact .shutdown (by rw [phase]; rintro ⟨⟩)
  next => cases moved

end CoinbaseFeed

end TickLiq
