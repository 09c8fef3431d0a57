import TickLiq.Machine.Binary64
import TickLiq.Machine.Loop
import TickLiq.Machine.Paging

/-!
# Candles from GeckoTerminal

`fetch_range` asks for pages of candles backwards from the end of the window. What is
asked and answered is kept in order, and an endpoint may answer by all of it. Every number
of a candle passes through `f64`, the timestamp too.
-/
namespace TickLiq.Geckoterminal

open Machine

/-- A number of `serde_json`. -/
inductive Number where
  | integer (value : ℤ)
  | float (value : Binary64) (finite : value.isFinite = true)

def Number.asF64 : Number → Binary64
  | .integer value => value
  | .float value _ => value

inductive Json where
  | null
  | boolean (value : Bool)
  | number (value : Number)
  | string (value : String)
  | array (elements : List Json)
  | object (fields : List (String × Json))

def Json.asF64 : Json → Option Binary64
  | .number value => some value.asF64
  | _ => none

def Json.asArray : Json → Option (List Json)
  | .array elements => some elements
  | _ => none

def Json.get? (name : String) : Json → Option Json
  | .object fields => fields.lookup name
  | _ => none

/-- `body.pointer("/data/attributes/ohlcv_list")`, if an array is there. -/
def ohlcvList (body : Json) : Option (List Json) := do
  let data ← body.get? "data"
  let attributes ← data.get? "attributes"
  let list ← attributes.get? "ohlcv_list"
  list.asArray

structure OhlcvCandle where
  timestamp : ℤ
  opening : Binary64
  high : Binary64
  low : Binary64
  close : Binary64
  volumeUsd : Binary64
deriving DecidableEq

/-- The closure `num` of the row at place `i`. -/
def num (i : ℕ) (row : List Json) (j : ℕ) (name : String) : Except String Binary64 :=
  match row[j]?.bind Json.asF64 with
  | some value => .ok value
  | none => .error s!"ohlcv_list[{i}].{name} is not a number"

def parseRow (i : ℕ) (entry : Json) : Except String OhlcvCandle :=
  match entry.asArray with
  | none => .error s!"ohlcv_list[{i}] is not an array"
  | some row =>
    let fields := row.length
    if fields ≠ 6 then .error s!"ohlcv_list[{i}] has {fields} fields, expected 6"
    else do
      let timestamp ← num i row 0 "timestamp"
      let opening ← num i row 1 "open"
      let high ← num i row 2 "high"
      let low ← num i row 3 "low"
      let close ← num i row 4 "close"
      let volumeUsd ← num i row 5 "volume"
      .ok { timestamp := timestamp.toI64, opening, high, low, close, volumeUsd }

def pushRow (i : ℕ) (out : List OhlcvCandle) (entry : Json) :
    Except String (List OhlcvCandle) := do
  let candle ← parseRow i entry
  .ok (out ++ [candle])

def parseOhlcvList (body : Json) : Except String (List OhlcvCandle) :=
  match ohlcvList body with
  | none => .error "response missing data.attributes.ohlcv_list array"
  | some list => do
    let out ← loop pushRow 0 [] list
    .ok (sortByKey OhlcvCandle.timestamp out)

/-! ### Rows -/

/-- Six numbers. -/
def wellFormedRow : Json → Bool
  | .array [.number _, .number _, .number _, .number _, .number _, .number _] => true
  | _ => false

/-- A row of the six numbers of a candle, each in one of the forms that JSON has for it. -/
structure Encodes (row : List Number) (candle : OhlcvCandle) : Prop where
  numbers : row.map Number.asF64 = [(candle.timestamp : Binary64), candle.opening, candle.high,
    candle.low, candle.close, candle.volumeUsd]

def encodeRow (row : List Number) : Json := .array (row.map Json.number)

/-- Up to `2^53` an integer is an `f64`. -/
theorem toI64_intCast {n : ℤ} (bits : |n| ≤ 2 ^ 53) : (n : Binary64).toI64 = n := by
  obtain ⟨lower, upper⟩ := abs_le.mp bits
  have reads := (Binary64.reads_intCast bits).toInt (-2 ^ 63) (2 ^ 63 - 1)
  rw [Int.floor_intCast, Int.ceil_intCast, ite_self] at reads
  unfold Binary64.toI64
  omega

theorem parseRow_encodes (i : ℕ) {row : List Number} {candle : OhlcvCandle}
    (encodes : Encodes row candle) (bits : |candle.timestamp| ≤ 2 ^ 53) :
    parseRow i (encodeRow row) = .ok candle := by
  obtain ⟨numbers⟩ := encodes
  obtain ⟨t, _, rfl, time, numbers⟩ := List.map_eq_cons_iff.mp numbers
  obtain ⟨o, _, rfl, opening, numbers⟩ := List.map_eq_cons_iff.mp numbers
  obtain ⟨h, _, rfl, high, numbers⟩ := List.map_eq_cons_iff.mp numbers
  obtain ⟨l, _, rfl, low, numbers⟩ := List.map_eq_cons_iff.mp numbers
  obtain ⟨c, _, rfl, close, numbers⟩ := List.map_eq_cons_iff.mp numbers
  obtain ⟨v, _, rfl, volume, numbers⟩ := List.map_eq_cons_iff.mp numbers
  rw [List.map_eq_nil_iff.mp numbers]
  have read : parseRow i (encodeRow [t, o, h, l, c, v]) = .ok {
      timestamp := t.asF64.toI64
      opening := o.asF64
      high := h.asF64
      low := l.asF64
      close := c.asF64
      volumeUsd := v.asF64 } := rfl
  rw [read, time, opening, high, low, close, volume, toI64_intCast bits]

theorem num_ok_iff {i j : ℕ} {row : List Json} {name : String} {value : Binary64} :
    num i row j name = .ok value ↔ ∃ n, row[j]? = some (.number n) ∧ n.asF64 = value := by
  cases field : row[j]? with
  | none => simp [num, field]
  | some entry => cases entry <;> simp [num, field, Json.asF64]

/-- A row that is not made of six numbers is an error. -/
theorem parseRow_wellFormed {i : ℕ} {entry : Json} {candle : OhlcvCandle}
    (parsed : parseRow i entry = .ok candle) : wellFormedRow entry = true := by
  cases entry with
  | array row =>
    by_cases six : row.length = 6
    · match row, six with
      | [a, b, c, d, e, f], _ =>
        -- each field that is read has to be a number
        simp [parseRow, Json.asArray, bind_ok_iff, num_ok_iff] at parsed
        obtain ⟨_, rfl, _, rfl, _, rfl, _, rfl, _, rfl, _, rfl, _⟩ := parsed
        rfl
    · simp [parseRow, Json.asArray, six] at parsed
  | _ => simp [parseRow, Json.asArray] at parsed

theorem loop_pushRow_encodes {rows : List (List Number)} {candles : List OhlcvCandle}
    (encodes : List.Forall₂ Encodes rows candles)
    (bits : ∀ candle ∈ candles, |candle.timestamp| ≤ 2 ^ 53) (i : ℕ) (out : List OhlcvCandle) :
    loop pushRow i out (rows.map encodeRow) = .ok (out ++ candles) := by
  induction encodes generalizing i out with
  | nil => simp [loop]
  | @cons row candle rows candles head _ ih =>
    have first := bits candle (List.mem_cons_self ..)
    have pushed : pushRow i out (encodeRow row) = .ok (out ++ [candle]) := by
      simp [pushRow, parseRow_encodes i head first, ok_bind]
    have rest := ih (fun c member => bits c (List.mem_cons_of_mem _ member)) (i + 1)
      (out ++ [candle])
    rw [List.append_assoc] at rest
    exact loop_cons.mpr ⟨out ++ [candle], pushed, rest⟩

/-- A page of candles that are apart is read back in ascending order, however it was sent. -/
theorem parseOhlcvList_encodes {body : Json} {rows : List (List Number)}
    {sent page : List OhlcvCandle} {gap : ℤ} (apart : 0 < gap)
    (spaced : Spaced OhlcvCandle.timestamp gap page)
    (bits : ∀ candle ∈ page, |candle.timestamp| ≤ 2 ^ 53) (same : sent.Perm page)
    (encodes : List.Forall₂ Encodes rows sent)
    (listed : ohlcvList body = some (rows.map encodeRow)) : parseOhlcvList body = .ok page := by
  have each : ∀ candle ∈ sent, |candle.timestamp| ≤ 2 ^ 53 :=
    fun candle member => bits candle (same.mem_iff.mp member)
  simp only [parseOhlcvList, listed, loop_pushRow_encodes encodes each, ok_bind, List.nil_append,
    sortByKey_spaced apart spaced same]

theorem parseOhlcvList_wellFormed {body : Json} {out : List OhlcvCandle}
    (parsed : parseOhlcvList body = .ok out) :
    ∃ rows, ohlcvList body = some rows ∧ ∀ row ∈ rows, wellFormedRow row = true := by
  cases list : ohlcvList body with
  | none => simp [parseOhlcvList, list] at parsed
  | some rows =>
    simp only [parseOhlcvList, list, bind_ok_iff] at parsed
    obtain ⟨read, through, _⟩ := parsed
    refine ⟨rows, rfl, ?_⟩
    intro row member
    obtain ⟨i, before, after, stepped⟩ := loop_each through row member
    obtain ⟨candle, parsed, _⟩ := (bind_ok_iff ..).mp stepped
    exact parseRow_wellFormed parsed

/-! ### Requests -/

structure OhlcvRequest where
  poolAddress : String
  timeframe : String
  limit : ℕ
  beforeTimestamp : Option ℤ
deriving DecidableEq

structure StatusCode where
  code : ℕ
  /-- The code with its reason, as it is shown. -/
  shown : String

def StatusCode.isSuccess (status : StatusCode) : Bool :=
  decide (200 ≤ status.code) && decide (status.code < 300)

/-- A body is there if it decodes. -/
inductive HttpReply where
  | failed
  | received (status : StatusCode) (body : Option Json)

def HttpReply.tooManyRequests : HttpReply → Bool
  | .received status _ => decide (status.code = 429)
  | .failed => false

abbrev Conversation := List (OhlcvRequest × HttpReply)

def maxLimit : ℕ := 1000
def maxRetries : ℕ := 3
def maxPages : ℕ := 50

def readReply (poolAddress : String) : HttpReply → Except String Json
  | .failed => .error "GeckoTerminal request failed"
  | .received status body =>
    if status.isSuccess then
      match body with
      | some body => .ok body
      | none => .error "decode GeckoTerminal JSON"
    else
      let shown := status.shown
      .error s!"GeckoTerminal returned HTTP {shown} for pool {poolAddress}"

section Client

variable (send : Conversation → OhlcvRequest → HttpReply)

/-- The loop of `fetch_ohlcv`, with the retries that are left. -/
def sendWithRetries (request : OhlcvRequest) : ℕ → Conversation → Except String Json × Conversation
  | 0, log =>
    let reply := send log request
    (readReply request.poolAddress reply, log ++ [(request, reply)])
  | retries + 1, log =>
    let reply := send log request
    if reply.tooManyRequests then sendWithRetries request retries (log ++ [(request, reply)])
    else (readReply request.poolAddress reply, log ++ [(request, reply)])

def fetchOhlcv (poolAddress timeframe : String) (beforeTimestamp : Option ℤ) (limit : ℕ)
    (log : Conversation) : Except String (List OhlcvCandle) × Conversation :=
  let request : OhlcvRequest :=
    { poolAddress, timeframe, limit := min limit maxLimit, beforeTimestamp }
  match sendWithRetries send request maxRetries log with
  | (.error e, log) => (.error e, log)
  | (.ok body, log) => (parseOhlcvList body, log)

/-- The loop of `fetch_range`, with the pages that are left. -/
def fetchPages (poolAddress timeframe : String) (fromTs : ℤ) :
    ℕ → Option ℤ → List OhlcvCandle → Conversation →
      Except String (List OhlcvCandle) × Conversation
  | 0, _, all, log => (.ok all, log)
  | pages + 1, cursor, all, log =>
    match fetchOhlcv send poolAddress timeframe cursor maxLimit log with
    | (.error e, log) => (.error e, log)
    -- the history has run dry
    | (.ok [], log) => (.ok all, log)
    | (.ok (first :: rest), log) =>
      let oldest := first.timestamp
      -- `batch` is ascending: its first candle is the oldest
      if oldest ≤ fromTs then (.ok (all ++ first :: rest), log)
      -- above `fromTs`, so there is a second before it
      else fetchPages poolAddress timeframe fromTs pages (some (oldest - 1))
        (all ++ first :: rest) log

def fetchRange (poolAddress timeframe : String) (fromTs toTs : ℤ) :
    Except String (List OhlcvCandle) × Conversation :=
  match fetchPages send poolAddress timeframe fromTs maxPages (some toTs) [] [] with
  | (.error e, log) => (.error e, log)
  | (.ok all, log) =>
    let kept := window OhlcvCandle.timestamp fromTs toTs all
    (.ok (dedupByKey OhlcvCandle.timestamp (sortByKey OhlcvCandle.timestamp kept)), log)

/-! ### An endpoint that serves a history -/

/-- It answers with `body`, after it has been asked again at most `retries` times. -/
inductive AnswersWithin (request : OhlcvRequest) (body : Json) : ℕ → Conversation → Prop
  | served {retries : ℕ} {log : Conversation} {status : StatusCode} (success : status.isSuccess)
      (answer : send log request = .received status (some body)) :
      AnswersWithin request body retries log
  | limited {retries : ℕ} {log : Conversation} (again : (send log request).tooManyRequests)
      (rest : AnswersWithin request body retries (log ++ [(request, send log request)])) :
      AnswersWithin request body (retries + 1) log

/-- Asked before a time, the endpoint sends the newest thousand candles of the history up
to it, in some order. It may count the time itself in, and limit the rate three times. -/
def Serves (poolAddress timeframe : String) (inclusive : Bool) (history : List OhlcvCandle) :
    Prop :=
  ∀ (log : Conversation) (before : ℤ), InRange 64 before →
    ∃ (body : Json) (rows : List (List Number)) (sent : List OhlcvCandle),
    ohlcvList body = some (rows.map encodeRow) ∧ List.Forall₂ Encodes rows sent ∧
    sent.Perm (newest 1000 (cut OhlcvCandle.timestamp inclusive before history)) ∧
    AnswersWithin send { poolAddress, timeframe, limit := 1000, beforeTimestamp := some before }
      body 3 log

variable {send}

theorem success_not_tooMany {status : StatusCode} (success : status.isSuccess) (body : Option Json) :
    (HttpReply.received status body).tooManyRequests = false := by
  simp only [StatusCode.isSuccess, Bool.and_eq_true, decide_eq_true_eq] at success
  simp only [HttpReply.tooManyRequests, decide_eq_false_iff_not]
  omega

theorem sendWithRetries_answers {request : OhlcvRequest} {body : Json} {retries : ℕ}
    {log : Conversation} (answers : AnswersWithin send request body retries log) :
    (sendWithRetries send request retries log).1 = .ok body := by
  induction answers with
  | @served retries log status success answer =>
    -- a success is read at once, with or without retries left
    have read : readReply request.poolAddress (send log request) = .ok body := by
      simp [answer, readReply, success]
    cases retries with
    | zero => exact read
    | succ retries =>
      simp only [sendWithRetries, answer, success_not_tooMany success]
      rw [← answer]
      exact read
  | limited again rest ih =>
    simp only [sendWithRetries, again, if_true]
    exact ih

section Served

variable {poolAddress timeframe : String} {inclusive : Bool} {history : List OhlcvCandle} {gap : ℤ}

theorem mem_page {before : ℤ} {candle : OhlcvCandle}
    (member : candle ∈ newest 1000 (cut OhlcvCandle.timestamp inclusive before history)) :
    candle ∈ history :=
  List.mem_of_mem_filter (List.mem_of_mem_drop member)

theorem fetchOhlcv_serves (apart : 0 < gap) (spaced : Spaced OhlcvCandle.timestamp gap history)
    (bits : ∀ candle ∈ history, |candle.timestamp| ≤ 2 ^ 53)
    (serves : Serves send poolAddress timeframe inclusive history) {before : ℤ}
    (fits : InRange 64 before) (log : Conversation) :
    (fetchOhlcv send poolAddress timeframe (some before) maxLimit log).1 =
      .ok (newest 1000 (cut OhlcvCandle.timestamp inclusive before history)) := by
  obtain ⟨body, rows, sent, listed, encodes, same, answers⟩ := serves log before fits
  have page : Spaced OhlcvCandle.timestamp gap
      (newest 1000 (cut OhlcvCandle.timestamp inclusive before history)) :=
    List.Pairwise.sublist (List.drop_sublist ..) spaced.cut
  have answered := sendWithRetries_answers answers
  have parsed := parseOhlcvList_encodes apart page
    (fun candle member => bits candle (mem_page member)) same encodes listed
  unfold fetchOhlcv
  simp only [maxLimit, maxRetries, Nat.min_self]
  split
  next e _ failed =>
    rw [failed] at answered
    cases answered
  next read _ returned =>
    rw [returned] at answered
    cases answered
    exact parsed

/-- Over such an endpoint the loop is the walk backwards. -/
theorem fetchPages_serves (apart : 0 < gap) (spaced : Spaced OhlcvCandle.timestamp gap history)
    (bits : ∀ candle ∈ history, |candle.timestamp| ≤ 2 ^ 53)
    (serves : Serves send poolAddress timeframe inclusive history) {fromTs : ℤ}
    (low : InRange 64 fromTs) (pages : ℕ) {cursor : ℤ} (fits : InRange 64 cursor)
    (all : List OhlcvCandle) (log : Conversation) :
    (fetchPages send poolAddress timeframe fromTs pages (some cursor) all log).1 =
      .ok (all ++ pageBack OhlcvCandle.timestamp
        (fun before => newest 1000 (cut OhlcvCandle.timestamp inclusive before history))
        fromTs pages cursor) := by
  induction pages generalizing cursor all log with
  | zero => simp [fetchPages, pageBack]
  | succ pages ih =>
    have fetched := fetchOhlcv_serves apart spaced bits serves fits log
    have members : ∀ candle ∈ newest 1000 (cut OhlcvCandle.timestamp inclusive cursor history),
        candle ∈ history := fun _ => mem_page
    simp only [fetchPages, pageBack]
    generalize newest 1000 (cut OhlcvCandle.timestamp inclusive cursor history) = page
      at fetched members
    generalize fetchOhlcv send poolAddress timeframe (some cursor) maxLimit log = answer
      at fetched
    obtain ⟨result, after⟩ := answer
    cases fetched
    cases page with
    | nil => simp
    | cons first rest =>
      by_cases reached : first.timestamp ≤ fromTs
      · simp [reached]
      · -- the next cursor lies between the start of the window and a candle of the history
        have upper := (abs_le.mp (bits first (members first (List.mem_cons_self ..)))).2
        have next : InRange 64 (first.timestamp - 1) := by
          obtain ⟨lower, _⟩ := low
          constructor <;> omega
        simp only [reached, if_false, ih next, List.append_assoc]

/-- The window comes back whole if it has fewer candles than the pages can hold. -/
theorem fetchRange_serves (spaced : Spaced OhlcvCandle.timestamp 60 history)
    (bits : ∀ candle ∈ history, |candle.timestamp| ≤ 2 ^ 53)
    (serves : Serves send poolAddress timeframe inclusive history) {fromTs toTs : ℤ}
    (low : InRange 64 fromTs) (high : InRange 64 toTs)
    (fewer : (window OhlcvCandle.timestamp fromTs toTs history).length < maxPages * 1000) :
    (fetchRange send poolAddress timeframe fromTs toTs).1 =
      .ok (window OhlcvCandle.timestamp fromTs toTs history) := by
  have ascending : Spaced OhlcvCandle.timestamp 60
      (window OhlcvCandle.timestamp fromTs toTs history) := List.Pairwise.filter _ spaced
  have walked := fetchPages_serves (by omega) spaced bits serves low maxPages high [] []
  have whole := pageBack_window inclusive (by omega) spaced (by omega) fewer
  -- sorting puts the pages in order, and there are no doubles to remove
  have sorted := sortByKey_spaced (by omega) ascending whole
  have single := dedupByKey_spaced (by omega) ascending
  unfold fetchRange
  split
  next failed =>
    rw [failed] at walked
    cases walked
  next fetched =>
    rw [fetched, List.nil_append] at walked
    simp only [Except.ok.inj walked, sorted, single]

end Served

/-! ### Misbehaving endpoints -/

/-- What comes back is in order and within the window, whatever the endpoint answers. -/
theorem fetchRange_rising {poolAddress timeframe : String} {fromTs toTs : ℤ}
    {candles : List OhlcvCandle}
    (returned : (fetchRange send poolAddress timeframe fromTs toTs).1 = .ok candles) :
    candles.Pairwise (fun a b => a.timestamp < b.timestamp) ∧
      ∀ c ∈ candles, fromTs ≤ c.timestamp ∧ c.timestamp < toTs := by
  unfold fetchRange at returned
  split at returned
  next => cases returned
  next all _ _ =>
    cases returned
    refine ⟨dedupByKey_rising _, ?_⟩
    intro c member
    have sorted := (List.destutter_sublist _ _).subset member
    have kept := (List.mergeSort_perm _ _).mem_iff.mp sorted
    simpa using (List.mem_filter.mp kept).2

/-! ### Malformed pages -/

/-- A page that was sent without a list of rows, or with a row that is not six numbers. -/
def malformedReply : HttpReply → Bool
  | .received status (some body) =>
    status.isSuccess &&
      match ohlcvList body with
      | some rows => rows.any fun row => !wellFormedRow row
      | none => true
  | _ => false

def Clean (log : Conversation) : Prop := ∀ exchange ∈ log, malformedReply exchange.2 = false

theorem Clean.concat {log : Conversation} (clean : Clean log) {reply : HttpReply}
    (formed : malformedReply reply = false) (request : OhlcvRequest) :
    Clean (log ++ [(request, reply)]) := by
  intro exchange member
  rcases List.mem_append.mp member with earlier | last
  · exact clean exchange earlier
  · rw [List.mem_singleton.mp last]
    exact formed

theorem malformedReply_read {poolAddress : String} {reply : HttpReply} {body : Json}
    {rows : List Json} (read : readReply poolAddress reply = .ok body)
    (list : ohlcvList body = some rows) (formed : ∀ row ∈ rows, wellFormedRow row = true) :
    malformedReply reply = false := by
  cases reply with
  | failed => rfl
  | received status decoded =>
    cases decoded with
    | none => rfl
    | some decoded =>
      by_cases success : status.isSuccess
      · simp only [readReply, success, if_true] at read
        cases read
        simpa [malformedReply, success, list] using formed
      · simp [malformedReply, success]

theorem malformedReply_tooMany {reply : HttpReply} (again : reply.tooManyRequests) :
    malformedReply reply = false := by
  cases reply with
  | failed => rfl
  | received status decoded =>
    by_cases success : status.isSuccess
    · rw [success_not_tooMany success] at again
      cases again
    · cases decoded <;> simp [malformedReply, success]

theorem sendWithRetries_clean {request : OhlcvRequest} {body : Json} {rows : List Json}
    {retries : ℕ} {log after : Conversation} (clean : Clean log)
    (returned : sendWithRetries send request retries log = (.ok body, after))
    (list : ohlcvList body = some rows) (formed : ∀ row ∈ rows, wellFormedRow row = true) :
    Clean after := by
  induction retries generalizing log with
  | zero =>
    obtain ⟨read, rfl⟩ := Prod.mk.inj returned
    exact clean.concat (malformedReply_read read list formed) request
  | succ retries ih =>
    simp only [sendWithRetries] at returned
    split at returned
    next again => exact ih (clean.concat (malformedReply_tooMany again) request) returned
    next =>
      obtain ⟨read, rfl⟩ := Prod.mk.inj returned
      exact clean.concat (malformedReply_read read list formed) request

theorem fetchOhlcv_clean {poolAddress timeframe : String} {before : Option ℤ} {limit : ℕ}
    {log after : Conversation} {batch : List OhlcvCandle} (clean : Clean log)
    (returned : fetchOhlcv send poolAddress timeframe before limit log = (.ok batch, after)) :
    Clean after := by
  unfold fetchOhlcv at returned
  simp only at returned
  split at returned
  next => cases returned
  next body _ sent =>
    obtain ⟨parsed, rfl⟩ := Prod.mk.inj returned
    obtain ⟨rows, list, formed⟩ := parseOhlcvList_wellFormed parsed
    exact sendWithRetries_clean clean sent list formed

theorem fetchPages_clean {poolAddress timeframe : String} {fromTs : ℤ} {pages : ℕ}
    {cursor : Option ℤ} {all out : List OhlcvCandle} {log after : Conversation} (clean : Clean log)
    (returned : fetchPages send poolAddress timeframe fromTs pages cursor all log =
      (.ok out, after)) : Clean after := by
  induction pages generalizing cursor all log with
  | zero =>
    cases returned
    exact clean
  | succ pages ih =>
    simp only [fetchPages] at returned
    split at returned
    next => cases returned
    next fetched =>
      cases returned
      exact fetchOhlcv_clean clean fetched
    next fetched =>
      have page := fetchOhlcv_clean clean fetched
      split at returned
      next =>
        cases returned
        exact page
      next => exact ih page returned

theorem fetchRange_clean {poolAddress timeframe : String} {fromTs toTs : ℤ}
    {out : List OhlcvCandle} {log : Conversation}
    (returned : fetchRange send poolAddress timeframe fromTs toTs = (.ok out, log)) :
    Clean log := by
  unfold fetchRange at returned
  split at returned
  next => cases returned
  next fetched =>
    cases returned
    exact fetchPages_clean (by simp [Clean]) fetched

/-! ### The whole window -/

/-- From an endpoint that serves a history the window comes back whole, and each candle of
it once; and whatever the endpoint, a malformed page that it sent is an error. -/
theorem fetchRange_whole_window (send : Conversation → OhlcvRequest → HttpReply)
    (poolAddress timeframe : String) {fromTs toTs : ℤ} (low : InRange 64 fromTs)
    (high : InRange 64 toTs) :
    (∀ (inclusive : Bool) (history : List OhlcvCandle),
      Spaced OhlcvCandle.timestamp 60 history →
      (∀ candle ∈ history, |candle.timestamp| ≤ 2 ^ 53) →
      Serves send poolAddress timeframe inclusive history → fromTs < toTs →
      (history.filter fun c => decide (fromTs ≤ c.timestamp ∧ c.timestamp < toTs)).length < 50000 →
      ∃ candles, (fetchRange send poolAddress timeframe fromTs toTs).1 = .ok candles ∧
        candles = (history.filter fun c => decide (fromTs ≤ c.timestamp ∧ c.timestamp < toTs)) ∧
        candles.Pairwise fun a b => a.timestamp < b.timestamp) ∧
      (((fetchRange send poolAddress timeframe fromTs toTs).2.any fun exchange =>
        malformedReply exchange.2) →
        ∃ message, (fetchRange send poolAddress timeframe fromTs toTs).1 = .error message) := by
  constructor
  · intro inclusive history spaced bits serves _ fewer
    have kept : (history.filter fun c => decide (fromTs ≤ c.timestamp ∧ c.timestamp < toTs)) =
        window OhlcvCandle.timestamp fromTs toTs history := by
      simp only [window, Bool.decide_and]
    have room : 50000 = maxPages * 1000 := by simp [maxPages]
    rw [kept, room] at fewer
    rw [kept]
    refine ⟨_, fetchRange_serves spaced bits serves low high fewer, rfl, ?_⟩
    apply List.Pairwise.imp _ (List.Pairwise.filter _ spaced)
    intro a b near
    omega
  · intro malformed
    cases result : fetchRange send poolAddress timeframe fromTs toTs with
    | mk outcome log =>
      rw [result] at malformed
      cases outcome with
      | error message => exact ⟨message, rfl⟩
      | ok candles =>
        -- a list is only returned over a clean conversation
        obtain ⟨exchange, member, bad⟩ := List.any_eq_true.mp malformed
        rw [fetchRange_clean result exchange member] at bad
        cases bad

end Client

/-- The body of an answer. -/
def pageOf (rows : List Json) : Json :=
  .object [("data", .object [("attributes", .object [("ohlcv_list", .array rows)])])]

/-- An endpoint that always answers, the newest row first. -/
def respond (rows : ℤ → List Json) (_ : Conversation) (request : OhlcvRequest) : HttpReply :=
  match request.beforeTimestamp with
  | some before =>
    .received { code := 200, shown := "200 OK" } (some (pageOf (rows before)))
  | none => .failed

/-- A candle at which nothing was traded. -/
def flat (timestamp : ℤ) : OhlcvCandle :=
  { timestamp, opening := 1, high := 1, low := 1, close := 1, volumeUsd := 0 }

def flatRow (timestamp : ℤ) : List Number :=
  [.integer timestamp, .integer 1, .integer 1, .integer 1, .integer 1, .integer 0]

theorem flatRow_encodes (timestamp : ℤ) : Encodes (flatRow timestamp) (flat timestamp) := by
  refine ⟨?_⟩
  have one : ((1 : ℤ) : Binary64) = 1 := Binary64.reads_one.eq_of_eq (by
    simpa using Binary64.reads_intCast (show |(1 : ℤ)| ≤ 2 ^ 53 by decide)) |>.symm
  have zero : ((0 : ℤ) : Binary64) = 0 := rfl
  simp [flatRow, flat, Number.asF64, one, zero]

/-- The rows that a history of flat candles is served as, asked before a time. -/
def flatRows (inclusive : Bool) (times : List ℤ) (before : ℤ) : List (List Number) :=
  ((newest 1000 (cut OhlcvCandle.timestamp inclusive before (times.map flat))).reverse.map
    fun candle => flatRow candle.timestamp)

theorem respond_serves (poolAddress timeframe : String) (inclusive : Bool) (times : List ℤ) :
    Serves (respond fun before => (flatRows inclusive times before).map encodeRow) poolAddress
      timeframe inclusive (times.map flat) := by
  intro log before _
  have success : StatusCode.isSuccess { code := 200, shown := "200 OK" } = true := rfl
  refine ⟨_, flatRows inclusive times before, _, ?_, ?_, List.reverse_perm _,
    .served success rfl⟩
  · simp [pageOf, ohlcvList, Json.get?, Json.asArray]
  · apply List.forall₂_map_left_iff.mpr
    apply List.forall₂_same.mpr
    intro candle member
    obtain ⟨time, _, same⟩ := List.mem_map.mp (mem_page (List.mem_reverse.mp member))
    rw [← same]
    exact flatRow_encodes time

theorem fetchRange_whole_window_minutes :
    ((fetchRange (respond fun before => (flatRows true [60, 120, 180, 240] before).map encodeRow)
        "pool" "minute" 100 240).1 = .ok [flat 120, flat 180]) ∧
      ∃ message, (fetchRange (respond fun _ => [.array [.number (.integer 60)]]) "pool" "minute" 0
        240).1 = .error message := by
  have low : InRange 64 100 := by decide
  have high : InRange 64 240 := by decide
  have zero : InRange 64 0 := by decide
  constructor
  · obtain ⟨candles, returned, same, _⟩ := (fetchRange_whole_window _ "pool" "minute" low high).1
      true ([60, 120, 180, 240].map flat) (by decide) (by decide) (respond_serves _ _ true _)
      (by decide) (by decide)
    rw [returned, same]
    rfl
  · apply (fetchRange_whole_window _ "pool" "minute" zero high).2
    rfl

theorem fetchOhlcv_respond (rows : ℤ → List Json) (poolAddress timeframe : String) (before : ℤ)
    (limit : ℕ) (log : Conversation) :
    (fetchOhlcv (respond rows) poolAddress timeframe (some before) limit log).1 =
      parseOhlcvList (pageOf (rows before)) := by
  have success : StatusCode.isSuccess { code := 200, shown := "200 OK" } = true := rfl
  simp [fetchOhlcv, sendWithRetries, maxRetries, respond, HttpReply.tooManyRequests, readReply,
    success]

/-- The first second that `f64` lacks. -/
def oddSecond : ℤ := 9007199254740993

/-- Its candle is read as one of the second before, which the window does not hold. -/
theorem odd_second_lost : Spaced OhlcvCandle.timestamp 60 ([oddSecond].map flat) ∧
    Serves (respond fun before => (flatRows false [oddSecond] before).map encodeRow) "pool"
      "minute" false ([oddSecond].map flat) ∧
    ([oddSecond].map flat).filter (fun c =>
      decide (oddSecond ≤ c.timestamp ∧ c.timestamp < oddSecond + 1)) = [flat oddSecond] ∧
    (fetchRange (respond fun before => (flatRows false [oddSecond] before).map encodeRow) "pool"
      "minute" oddSecond (oddSecond + 1)).1 = .ok [] := by
  refine ⟨List.pairwise_singleton _ _, respond_serves _ _ _ _,
    List.filter_cons_of_pos (decide_eq_true ⟨le_rfl, Int.lt_succ _⟩), ?_⟩
  have rounded : (oddSecond : Binary64) = ((oddSecond - 1 : ℤ) : Binary64) := by decide +kernel
  have encodes : Encodes (flatRow oddSecond) (flat (oddSecond - 1)) :=
    ⟨(flatRow_encodes oddSecond).numbers.trans (congrArg (· :: _) rounded)⟩
  have page : flatRows false [oddSecond] (oddSecond + 1) = [flatRow oddSecond] := by
    simp [flatRows, cut, newest, flat]
  have fetched : (fetchOhlcv (respond fun before => (flatRows false [oddSecond] before).map
      encodeRow) "pool" "minute" (some (oddSecond + 1)) maxLimit []).1 =
        .ok [flat (oddSecond - 1)] := by
    rw [fetchOhlcv_respond, page]
    apply parseOhlcvList_encodes Int.one_pos (List.pairwise_singleton _ _) _
      (List.Perm.refl _) (.cons encodes .nil) rfl
    intro candle member
    rw [List.mem_singleton.mp member]
    decide
  -- the first page reaches back far enough, with a candle that the window lacks
  rw [fetchRange, maxPages, fetchPages]
  generalize fetchOhlcv _ "pool" "minute" _ _ _ = answer at fetched
  obtain ⟨result, after⟩ := answer
  cases fetched
  have reached : (flat (oddSecond - 1)).timestamp ≤ oddSecond := by
    simp [flat]
  have outside : window OhlcvCandle.timestamp oddSecond (oddSecond + 1) [flat (oddSecond - 1)] =
      [] := by
    simp [window, flat]
  simp [reached, outside, sortByKey, dedupByKey]

end TickLiq.Geckoterminal
