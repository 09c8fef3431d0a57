import Mathlib.Data.List.TakeDrop
import TickLiq.Machine.Layout
import TickLiq.Machine.Searching
import TickLiq.Machine.Utf8

/-!
# The symbol of a token

A metadata account holds a header of fixed size, then the name and the symbol, each behind
its length. Both lengths come from the chain and move the position before the next bound is
checked. The symbol is UTF-8 with NUL padding that its length counts.
-/
namespace TickLiq

open Machine

/-- How the parse of the metadata may panic. -/
inductive SymbolPanic where
  | arithmetic (panic : Panic)
  | sliceIndex
  | unwrapFailed
deriving DecidableEq

def addUsize (checks : Bool) (a b : ℕ) : Except SymbolPanic ℕ :=
  (addUnsigned checks 64 a b).mapError .arithmetic

/-- `&data[start..stop]` -/
def sliceData (data : Bytes) (start stop : ℕ) : Except SymbolPanic Bytes :=
  match slice data start stop with
  | some bytes => .ok bytes
  | none => .error .sliceIndex

/-- `u32::from_le_bytes(data[pos..pos + 4].try_into().unwrap()) as usize` -/
def readLen (checks : Bool) (data : Bytes) (pos : ℕ) : Except SymbolPanic ℕ := do
  let bytes ← sliceData data pos (← addUsize checks pos 4)
  if bytes.length = 4 then .ok (fromLe bytes) else .error .unwrapFailed

/-- The text of a `Utf8Error`. -/
def utf8Error : Utf8Error → String
  | ⟨validUpTo, some errorLen⟩ =>
    s!"invalid utf-8 sequence of {errorLen} bytes from index {validUpTo}"
  | ⟨validUpTo, none⟩ => s!"incomplete utf-8 byte sequence from index {validUpTo}"

def nul : Char := '\x00'

def symbolText (bytes : Bytes) : Except String String :=
  match fromUtf8 bytes with
  | .error e => .error s!"Symbol not valid UTF-8: {utf8Error e}"
  | .ok cs => .ok (String.ofList (trimEndMatches nul cs))

/-- What `try_fetch_token_symbol` does with the data of the account. -/
def parseTokenSymbol (checks : Bool) (data : Bytes) : Except SymbolPanic (Except String String) := do
  let pos := 65
  if data.length < (← addUsize checks pos 4) then
    return .error "Metadata too short for name length"
  else
    let nameLen ← readLen checks data pos
    -- the position moves before the name is known to be there
    let pos ← addUsize checks pos (← addUsize checks 4 nameLen)
    if data.length < (← addUsize checks pos 4) then
      return .error "Metadata too short for symbol length"
    else
      let symLen ← readLen checks data pos
      let pos ← addUsize checks pos 4
      if data.length < (← addUsize checks pos symLen) then
        return .error "Metadata too short for symbol data"
      else
        let sym ← sliceData data pos (← addUsize checks pos symLen)
        return symbolText sym

/-- `MAX_ATTEMPTS` -/
def maxAttempts : ℕ := 3

def retryFrom {α : Type} (f : ℕ → Except String α) (lastErr : String) : List ℕ → Except String α
  | [] => .error lastErr
  | attempt :: attempts =>
    match f attempt with
    | .ok v => .ok v
    | .error e => retryFrom f e attempts

/-- `f` gives the outcome of each attempt. -/
def retry {α : Type} (label : String) (f : ℕ → Except String α) : Except String α :=
  retryFrom f s!"{label}: no attempts made" (List.range maxAttempts)

/-- The data of the metadata account. At each attempt `getAccount` gives it, or the error of the
client. -/
def fetchMetadata (getAccount : ℕ → Except String Bytes) : Except String Bytes :=
  retry "get_account(metadata_pda)" fun attempt =>
    (getAccount attempt).mapError fun e => s!"Metadata account not found: {e}"

def tryFetchTokenSymbol (checks : Bool) (getAccount : ℕ → Except String Bytes) :
    Except SymbolPanic (Except String String) :=
  match fetchMetadata getAccount with
  | .error e => .ok (.error e)
  | .ok data => parseTokenSymbol checks data

/-- The mint is base58, of which a character is one byte. -/
def shortMint (mint : String) : String := String.ofList (mint.toList.take 8) ++ "…"

def fetchTokenSymbol (checks : Bool) (mint : String) (getAccount : ℕ → Except String Bytes) :
    Except SymbolPanic String := do
  match ← tryFetchTokenSymbol checks getAccount with
  | .ok sym => if sym ≠ "" then return sym else return shortMint mint
  | .error _ => return shortMint mint

/-! ### Exact arithmetic -/

/-- The length that stands at `pos`. -/
def lenAt (data : Bytes) (pos : ℕ) : ℕ := fromLe ((data.drop pos).take 4)

/-- The parse with sums that have no width and slices that are taken where they lie. -/
def exactTokenSymbol (data : Bytes) : Except String String :=
  let nameEnd := 69 + lenAt data 65
  let symbolEnd := nameEnd + 4 + lenAt data nameEnd
  if data.length < 69 then .error "Metadata too short for name length"
  else if data.length < nameEnd + 4 then .error "Metadata too short for symbol length"
  else if data.length < symbolEnd then .error "Metadata too short for symbol data"
  else symbolText ((data.drop (nameEnd + 4)).take (lenAt data nameEnd))

theorem addUsize_fits (checks : Bool) {a b : ℕ} (fits : a + b < 2 ^ 64) :
    addUsize checks a b = .ok (a + b) := by
  rw [addUsize, addUnsigned_fits checks fits]
  rfl

theorem lenAt_lt (data : Bytes) (pos : ℕ) : lenAt data pos < 2 ^ 32 := taken_fits 4 (data.drop pos)

theorem readLen_inside (checks : Bool) {data : Bytes} {pos : ℕ} (inside : pos + 4 ≤ data.length)
    (fits : pos + 4 < 2 ^ 64) : readLen checks data pos = .ok (lenAt data pos) := by
  have four := taken_length inside
  rw [readLen, addUsize_fits checks fits, ok_bind, sliceData, slice_inside inside]
  simp only [ok_bind, four, if_true, lenAt]

/-- No length that the data declares moves the position past the width or a slice past the end,
so every build returns, and all the same. -/
theorem parseTokenSymbol_exact (checks : Bool) (data : Bytes) :
    parseTokenSymbol checks data = .ok (exactTokenSymbol data) := by
  have nameFits := lenAt_lt data 65
  have symFits := lenAt_lt data (69 + lenAt data 65)
  simp only [parseTokenSymbol, exactTokenSymbol]
  rw [addUsize_fits checks (by omega), ok_bind]
  split
  · rfl
  next long =>
    rw [readLen_inside checks (by omega) (by omega), ok_bind]
    -- the name may be longer than the data, but no sum of three such terms fills the width
    rw [addUsize_fits checks (by omega), ok_bind, addUsize_fits checks (by omega), ok_bind]
    have sum : 65 + (4 + lenAt data 65) = 69 + lenAt data 65 := by omega
    rw [sum, addUsize_fits checks (by omega), ok_bind]
    split
    · rfl
    next named =>
      rw [readLen_inside checks (by omega) (by omega), ok_bind, ok_bind]
      rw [addUsize_fits checks (by omega), ok_bind]
      split
      · rfl
      next whole =>
        rw [ok_bind, sliceData, slice_inside (by omega), ok_bind]
        rfl

/-! ### The layout -/

def utf8 (s : String) : Bytes := s.toUTF8.data.toList

/-- A metadata account up to the symbol, and whatever bytes follow it. -/
structure TokenMetadata where
  header : Bytes
  name : Bytes
  symbol : String
  padding : ℕ
  tail : Bytes
  headerSize : header.length = 65
  nameFits : name.length < 2 ^ 32
  symbolFits : (utf8 symbol).length + padding < 2 ^ 32
  unpadded : symbol.toList.getLast? ≠ some nul

namespace TokenMetadata

/-- The symbol with the padding that its length counts. -/
def symbolField (m : TokenMetadata) : Bytes := utf8 m.symbol ++ List.replicate m.padding 0

def data (m : TokenMetadata) : Bytes :=
  m.header ++ (toLe 4 m.name.length ++ (m.name ++
    (toLe 4 m.symbolField.length ++ (m.symbolField ++ m.tail))))

end TokenMetadata

theorem encode_nuls (n : ℕ) : encode (List.replicate n nul) = List.replicate n 0 := by
  induction n with
  | zero => rfl
  | succ n ih =>
    rw [List.replicate_succ, encode_cons, ih, List.replicate_succ]
    rfl

/-- A field gives the symbol that it encodes under padding alone. -/
theorem symbolText_ok_iff {bytes : Bytes} {symbol : String} : symbolText bytes = .ok symbol ↔
    symbol.toList.getLast? ≠ some nul ∧ ∃ n, bytes = utf8 symbol ++ List.replicate n 0 := by
  -- the text is compared by its characters, as the padding is trimmed from them
  have read : symbolText bytes = .ok symbol ↔
      ∃ cs, fromUtf8 bytes = .ok cs ∧ trimEndMatches nul cs = symbol.toList := by
    unfold symbolText
    cases fromUtf8 bytes with
    | error e => simp
    | ok cs => simp [← String.toList_inj]
  rw [read]
  simp only [fromUtf8_ok_iff, trimEndMatches_eq_iff, utf8, toUTF8_encode]
  constructor
  · rintro ⟨cs, rfl, last, n, rfl⟩
    exact ⟨last, n, by rw [encode_append, encode_nuls]⟩
  · rintro ⟨last, n, rfl⟩
    exact ⟨symbol.toList ++ List.replicate n nul, by rw [encode_append, encode_nuls], last, n, rfl⟩

/-- An error of the text names the first place that no character can be read at. -/
theorem symbolText_error {bytes : Bytes} {text : String} (failed : symbolText bytes = .error text) :
    ∃ cs rest errorLen, bytes = encode cs ++ rest ∧ decodeChar rest = .error errorLen ∧
      text = s!"Symbol not valid UTF-8: {utf8Error ⟨(encode cs).length, errorLen⟩}" := by
  unfold symbolText at failed
  split at failed
  next e broken =>
    obtain ⟨cs, rest, shape, place, unread⟩ := fromUtf8_error broken
    rw [Except.error.injEq] at failed
    refine ⟨cs, rest, e.errorLen, shape, unread, ?_⟩
    rw [← failed, ← place]
  next => cases failed

theorem lenAt_append {before rest : Bytes} {pos n : ℕ} (place : before.length = pos)
    (fits : n < 2 ^ 32) : lenAt (before ++ (toLe 4 n ++ rest)) pos = n := by
  rw [lenAt, List.drop_left' place, List.take_left' (toLe_length 4 n), fromLe_toLe fits]

namespace TokenMetadata

variable (m : TokenMetadata)

theorem symbolField_length : m.symbolField.length = (utf8 m.symbol).length + m.padding := by
  simp [symbolField]

theorem data_length :
    m.data.length = 73 + m.name.length + m.symbolField.length + m.tail.length := by
  simp only [data, List.length_append, toLe_length, m.headerSize]
  omega

theorem lenAt_name : lenAt m.data 65 = m.name.length := lenAt_append m.headerSize m.nameFits

/-- What stands before the length of the symbol. -/
theorem data_split : m.data = (m.header ++ toLe 4 m.name.length ++ m.name) ++
    (toLe 4 m.symbolField.length ++ (m.symbolField ++ m.tail)) := by
  simp [data]

theorem lenAt_symbol : lenAt m.data (69 + m.name.length) = m.symbolField.length := by
  have fits : m.symbolField.length < 2 ^ 32 := by
    rw [m.symbolField_length]
    exact m.symbolFits
  have place : (m.header ++ toLe 4 m.name.length ++ m.name).length = 69 + m.name.length := by
    simp only [List.length_append, toLe_length, m.headerSize]
  rw [m.data_split]
  exact lenAt_append place fits

theorem field_at : (m.data.drop (73 + m.name.length)).take m.symbolField.length = m.symbolField := by
  rw [m.data_split, ← List.append_assoc, List.drop_left' (by simp [m.headerSize]; omega),
    List.take_left]

theorem exact_data : exactTokenSymbol m.data = .ok m.symbol := by
  have length := m.data_length
  have place : 69 + m.name.length + 4 = 73 + m.name.length := by omega
  have text : symbolText m.symbolField = .ok m.symbol :=
    symbolText_ok_iff.mpr ⟨m.unpadded, m.padding, rfl⟩
  simp only [exactTokenSymbol, m.lenAt_name, m.lenAt_symbol, place]
  rw [if_neg (by omega), if_neg (by omega), if_neg (by omega), m.field_at, text]

end TokenMetadata

theorem toLe_lenAt {data : Bytes} (pos : ℕ) (inside : pos + 4 ≤ data.length) :
    toLe 4 (lenAt data pos) = (data.drop pos).take 4 := by
  have four := taken_length inside
  have digits := toLe_fromLe ((data.drop pos).take 4)
  rwa [four] at digits

/-- The fields before the symbol are cut one after the other, so they join to the data. -/
theorem fields_join {data : Bytes} (named : 69 + lenAt data 65 + 4 ≤ data.length) :
    data.take 65 ++ (toLe 4 (lenAt data 65) ++ ((data.drop 69).take (lenAt data 65) ++
      (toLe 4 (lenAt data (69 + lenAt data 65)) ++ data.drop (69 + lenAt data 65 + 4)))) = data := by
  rw [toLe_lenAt (69 + lenAt data 65) named, List.drop_take_append_drop, List.drop_take_append_drop,
    toLe_lenAt 65 (by omega), List.drop_take_append_drop data 65 4, List.take_append_drop]

/-- The parse returns a symbol of exactly the accounts laid out around that symbol. -/
theorem exactTokenSymbol_ok_iff {data : Bytes} {symbol : String} :
    exactTokenSymbol data = .ok symbol ↔ ∃ m : TokenMetadata, m.data = data ∧ m.symbol = symbol := by
  constructor
  · intro parsed
    simp only [exactTokenSymbol] at parsed
    split at parsed
    · cases parsed
    split at parsed
    · cases parsed
    split at parsed
    · cases parsed
    next long named whole =>
      obtain ⟨last, n, field⟩ := symbolText_ok_iff.mp parsed
      have name : ((data.drop 69).take (lenAt data 65)).length = lenAt data 65 :=
        taken_length (by omega)
      have padded : (utf8 symbol ++ List.replicate n 0).length = lenAt data (69 + lenAt data 65) := by
        rw [← field]
        exact taken_length (by omega)
      refine ⟨{
        header := data.take 65
        name := (data.drop 69).take (lenAt data 65)
        symbol := symbol
        padding := n
        tail := data.drop (69 + lenAt data 65 + 4 + lenAt data (69 + lenAt data 65))
        headerSize := by
          rw [List.length_take]
          omega
        nameFits := by
          rw [name]
          exact lenAt_lt data 65
        symbolFits := by
          rw [List.length_append, List.length_replicate] at padded
          rw [padded]
          exact lenAt_lt data _
        unpadded := last }, ?_, rfl⟩
      -- symbol and padding are the field itself, so the tail joins to it
      simp only [TokenMetadata.data, TokenMetadata.symbolField, name, padded]
      rw [← field, List.drop_take_append_drop]
      exact fields_join (by omega)
  · rintro ⟨m, rfl, rfl⟩
    exact m.exact_data

/-- Any data, with any lengths it declares, is answered by every build and by all alike; and an
account laid out around a symbol gives that symbol, whatever stands before and after it. -/
theorem token_symbol_total_faithful :
    (∀ data, ∃ result, ∀ checks, parseTokenSymbol checks data = .ok result) ∧
      ∀ (m : TokenMetadata) (checks : Bool), parseTokenSymbol checks m.data = .ok (.ok m.symbol) := by
  constructor
  · intro data
    exact ⟨exactTokenSymbol data, fun checks => parseTokenSymbol_exact checks data⟩
  · intro m checks
    rw [parseTokenSymbol_exact, m.exact_data]

/-- `test_try_fetch_token_symbol_parses_layout` -/
example : parseTokenSymbol true (List.replicate 65 0 ++ toLe 4 9 ++ utf8 "TestToken" ++ toLe 4 3 ++
    utf8 "TST" ++ List.replicate 10 0) = .ok (.ok "TST") := by
  rfl

/-! ### Attempts and fallback -/

theorem retryFrom_ok_iff {α : Type} {f : ℕ → Except String α} {lastErr : String} {v : α}
    (start n : ℕ) : retryFrom f lastErr (List.range' start n) = .ok v ↔
      ∃ i < n, f (start + i) = .ok v ∧ ∀ j < i, ∃ e, f (start + j) = .error e := by
  induction n generalizing start lastErr with
  | zero => simp [retryFrom]
  | succ n ih =>
    rw [List.range'_succ, retryFrom]
    split
    next w first =>
      -- a success ends the attempts, so no later one is the first to succeed
      constructor
      · intro returned
        exact ⟨0, by omega, by rw [Nat.add_zero, first, returned], by simp⟩
      · rintro ⟨i, -, returned, failed⟩
        cases i with
        | zero => rw [← first, ← returned, Nat.add_zero]
        | succ i =>
          obtain ⟨e, none⟩ := failed 0 (by omega)
          rw [Nat.add_zero, first] at none
          cases none
    next e first =>
      rw [ih]
      constructor
      · rintro ⟨i, inside, returned, failed⟩
        refine ⟨i + 1, by omega, by rwa [← Nat.add_assoc, Nat.add_right_comm], ?_⟩
        intro j before
        cases j with
        | zero => exact ⟨e, first⟩
        | succ j =>
          rw [← Nat.add_assoc, Nat.add_right_comm]
          exact failed j (by omega)
      · rintro ⟨i, inside, returned, failed⟩
        cases i with
        | zero =>
          rw [Nat.add_zero, first] at returned
          cases returned
        | succ i =>
          refine ⟨i, by omega, by rwa [Nat.add_right_comm, Nat.add_assoc], ?_⟩
          intro j before
          rw [Nat.add_right_comm, Nat.add_assoc]
          exact failed (j + 1) (by omega)

/-- The first attempt that succeeds decides, if it is among the first three. -/
theorem retry_ok_iff {α : Type} {label : String} {f : ℕ → Except String α} {v : α} :
    retry label f = .ok v ↔ ∃ i < maxAttempts, f i = .ok v ∧ ∀ j < i, ∃ e, f j = .error e := by
  rw [retry, List.range_eq_range', retryFrom_ok_iff]
  simp only [Nat.zero_add]

theorem fetchMetadata_ok_iff {getAccount : ℕ → Except String Bytes} {data : Bytes} :
    fetchMetadata getAccount = .ok data ↔
      ∃ i < maxAttempts, getAccount i = .ok data ∧ ∀ j < i, ∃ e, getAccount j = .error e := by
  have read (i : ℕ) (text : String → String) :
      (getAccount i).mapError text = .ok data ↔ getAccount i = .ok data := by
    cases getAccount i <;> simp [Except.mapError]
  have lost (i : ℕ) (text : String → String) :
      (∃ e, (getAccount i).mapError text = .error e) ↔ ∃ e, getAccount i = .error e := by
    cases getAccount i <;> simp [Except.mapError]
  simp only [fetchMetadata, retry_ok_iff, read, lost]

theorem tryFetchTokenSymbol_exact (checks : Bool) (getAccount : ℕ → Except String Bytes) :
    tryFetchTokenSymbol checks getAccount = .ok (fetchMetadata getAccount >>= exactTokenSymbol) := by
  unfold tryFetchTokenSymbol
  cases fetchMetadata getAccount with
  | error e => rfl
  | ok data => exact parseTokenSymbol_exact checks data

/-- A symbol is fetched exactly where the first account that the client gives, in the attempts
there are, is laid out around it. -/
theorem tryFetchTokenSymbol_ok_iff {checks : Bool} {getAccount : ℕ → Except String Bytes}
    {symbol : String} : tryFetchTokenSymbol checks getAccount = .ok (.ok symbol) ↔
      ∃ i < maxAttempts, ∃ m : TokenMetadata, getAccount i = .ok m.data ∧ m.symbol = symbol ∧
        ∀ j < i, ∃ e, getAccount j = .error e := by
  rw [tryFetchTokenSymbol_exact, Except.ok.injEq, bind_ok_iff]
  simp only [fetchMetadata_ok_iff, exactTokenSymbol_ok_iff]
  constructor
  · rintro ⟨data, ⟨i, inside, fetched, failed⟩, m, rfl, same⟩
    exact ⟨i, inside, m, fetched, same, failed⟩
  · rintro ⟨i, inside, m, fetched, same, failed⟩
    exact ⟨m.data, ⟨i, inside, fetched, failed⟩, m, rfl, same⟩

/-- A label is always there to show: no reply of the client panics, and none leaves it empty. -/
theorem fetchTokenSymbol_shown (mint : String) (getAccount : ℕ → Except String Bytes) :
    ∃ label, label ≠ "" ∧ ∀ checks, fetchTokenSymbol checks mint getAccount = .ok label := by
  have short : shortMint mint ≠ "" := by
    simp [shortMint]
  cases fetched : fetchMetadata getAccount >>= exactTokenSymbol with
  | error e =>
    refine ⟨shortMint mint, short, fun checks => ?_⟩
    rw [fetchTokenSymbol, tryFetchTokenSymbol_exact, fetched]
    rfl
  | ok sym =>
    by_cases blank : sym = ""
    · refine ⟨shortMint mint, short, fun checks => ?_⟩
      rw [fetchTokenSymbol, tryFetchTokenSymbol_exact, fetched, ok_bind]
      simp only [blank]
      rfl
    · refine ⟨sym, blank, fun checks => ?_⟩
      rw [fetchTokenSymbol, tryFetchTokenSymbol_exact, fetched, ok_bind]
      exact if_pos blank

end TickLiq
