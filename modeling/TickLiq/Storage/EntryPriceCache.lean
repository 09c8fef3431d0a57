import TickLiq.Analytics.OrcaPnl
import TickLiq.Machine.Decimal
import TickLiq.Machine.Interleaving
import TickLiq.Protocols.Pubkeys

/-!
# The entry-price cache

One JSON file for each position, named after its mint, and read and written by any number of
commands at once. Nothing keeps them apart: a file is opened empty before it is written, so that
another command may find it empty, and a first observation may be written after another one.
-/
namespace TickLiq.Cache

open Machine Machine.Conversation

/-! ### Files -/

inductive FileCall where
  | createDirAll (dir : String)
  /-- Opened for writing, and emptied. -/
  | create (path : String)
  | writeAll (path text : String)
  | readToString (path : String)

abbrev Reply : FileCall → Type
  | .readToString _ => Except String String
  | .createDirAll _ | .create _ | .writeAll _ _ => Except String Unit

abbrev Files := String → Option String

/-- What becomes of a call: a change may be refused, a file may not be readable. -/
inductive Outcome where
  | works
  | refused (error : String)
  | unreadable (error : String)

/-- What is written at the start of a file stands before the rest of what was there. -/
def overlay (text old : String) : String :=
  text ++ String.ofList (old.toList.drop text.length)

def answer (files : Files) : (q : FileCall) → Outcome → Option (Reply q × Files)
  | .createDirAll _, .works => some (.ok (), files)
  | .create path, .works => some (.ok (), Function.update files path (some ""))
  | .writeAll path text, .works =>
    some (.ok (), Function.update files path (some (overlay text ((files path).getD ""))))
  | .readToString path, .works =>
    match files path with
    | some text => some (.ok text, files)
    | none => some (.error "No such file or directory (os error 2)", files)
  | .createDirAll _, .refused e => some (.error e, files)
  | .create _, .refused e => some (.error e, files)
  | .writeAll _ _, .refused e => some (.error e, files)
  | .readToString _, .unreadable e => some (.error e, files)
  | _, _ => none

/-- `PathBuf::join` -/
def join (path part : String) : String :=
  if part.toList.head? = some '/' then part
  else if path.toList.getLast? = some '/' ∨ path = "" then path ++ part
  else path ++ "/" ++ part

/-! ### `cache.rs` -/

/-- What is used of `serde_json`: the text written for a price, and the price found in a text by
`from_str`, `get("entry_price")` and `as_f64`. -/
structure PriceJson (K : Type) where
  toStringPretty : K → String
  entryPrice : String → Option K
  empty : entryPrice "" = none
  /-- Nothing but blanks may follow the value. -/
  trailing : ∀ x rest price, entryPrice (toStringPretty x ++ rest) = some price →
    entryPrice (toStringPretty x) = some price

structure CacheEnv (K : Type) where
  json : PriceJson K
  /-- `XDG_DATA_HOME` -/
  xdgDataHome : Option String
  /-- `HOME` -/
  home : Option String
  /-- The text of the error of `Pubkey::from_str`. -/
  parseError : String → String
  /-- `*ep <= 0.0` -/
  nonPositive : K → Bool
  display : K → String

abbrev Filing := ExceptT String (Conversation Reply)

def createDirAll (dir : String) : Filing Unit :=
  ExceptT.mk (question (FileCall.createDirAll dir) : Conversation Reply (Except String Unit))

/-- `std::fs::write` opens the file, and then writes it. -/
def write (path text : String) : Filing Unit := do
  ExceptT.mk (question (FileCall.create path) : Conversation Reply (Except String Unit))
  ExceptT.mk (question (FileCall.writeAll path text) : Conversation Reply (Except String Unit))

def readToString (path : String) : Conversation Reply (Except String String) :=
  question (FileCall.readToString path)

section Source

variable {K : Type} (env : CacheEnv K)

def cacheDir : String :=
  let base := match env.xdgDataHome with
    | some dir => dir
    | none => join (join (env.home.getD ".") ".local") "share"
  join base "lp-inspect"

def cacheFile (validated : Pubkey) : String := join (cacheDir env) (validated.text ++ ".json")

def cachePath (mint : String) : Except String String :=
  match Pubkey.fromStr mint with
  | some validated => .ok (cacheFile env validated)
  | none => .error s!"invalid mint '{mint}' for cache path: {env.parseError mint}"

def loadEntryPrice (mint : String) : Conversation Reply (Option K) :=
  match cachePath env mint with
  | .error _ => pure none
  | .ok path => do
    match ← readToString path with
    | .ok content => return env.json.entryPrice content
    | .error _ => return none

def saveEntryPrice (mint : String) (price : K) : Filing Unit := do
  let path ← liftExcept (cachePath env mint)
  createDirAll (cacheDir env)
  write path (env.json.toStringPretty price)

/-! ### Its callers -/

/-- `resolve_entry_price` of `position` and `strategy check`. -/
def resolveEntryPrice [Zero K] (mint : String) (flag : Option K) : Filing K :=
  match flag with
  | some ep => do
    saveEntryPrice env mint ep
    return ep
  | none => do
    match ← loadEntryPrice env mint with
    | some ep => return ep
    | none => return 0

/-- A `watch` that finds no price writes the one it observes, and then reads the file again. -/
def firstObservation (mint : String) (entryPriceAtStart : K) : Conversation Reply K := do
  let cached ← loadEntryPrice env mint
  if cached.isNone then
    -- a failure is logged, and the watch goes on
    let _ ← (saveEntryPrice env mint entryPriceAtStart).run
  let again ← loadEntryPrice env mint
  return again.getD entryPriceAtStart

/-- The start of `watch`. -/
def entryPriceForWatch (mint : String) (flag : Option K) (entryPriceAtStart : K) : Filing K := do
  if let some ep := flag then
    if env.nonPositive ep then
      throw s!"--entry-price must be positive (got {env.display ep})"
    saveEntryPrice env mint ep
  (firstObservation env mint entryPriceAtStart : Conversation Reply K)

end Source

/-- A command that deals with the cache. -/
inductive Use (K : Type) where
  | resolve (mint : String) (flag : Option K)
  | watch (mint : String) (flag : Option K) (entryPriceAtStart : K)

namespace Use

variable {K : Type}

def mint : Use K → String
  | resolve mint _ => mint
  | watch mint _ _ => mint

def flag : Use K → Option K
  | resolve _ flag => flag
  | watch _ flag _ => flag

def run [Zero K] (env : CacheEnv K) : Use K → Conversation Reply (Except String K)
  | resolve mint flag => (resolveEntryPrice env mint flag).run
  | watch mint flag entryPriceAtStart => (entryPriceForWatch env mint flag entryPriceAtStart).run

/-- The prices that the command may write. -/
def offered (env : CacheEnv K) : Use K → List K
  | resolve _ flag => flag.toList
  | watch _ none entryPriceAtStart => [entryPriceAtStart]
  | watch _ (some ep) entryPriceAtStart =>
    if env.nonPositive ep then [] else [ep, entryPriceAtStart]

end Use

/-- The commands on the files they find. -/
def start {K ι : Type} [Zero K] (env : CacheEnv K) (uses : ι → Use K) (files : Files) :
    Interleaving Files ι Reply (Except String K) :=
  ⟨files, fun i => (uses i).run env⟩

/-! ### Where the files lie -/

section Paths

/-- A directory, up to the name of a file in it. -/
def below (dir : String) : String :=
  if dir.toList.getLast? = some '/' ∨ dir = "" then dir else dir ++ "/"

theorem join_name {dir name : String} (relative : '/' ∉ name.toList) :
    join dir name = below dir ++ name := by
  have first : name.toList.head? ≠ some '/' := fun slash =>
    relative (List.mem_of_head? slash)
  rw [join, if_neg first, below]
  split <;> rfl

theorem slash_not_mem_name (key : Pubkey) : '/' ∉ (key.text ++ ".json").toList := by
  rw [String.toList_append, List.mem_append]
  rintro (inside | inside)
  · exact absurd (Pubkey.text_chars key '/' inside) (by decide)
  · exact absurd inside (by decide)

variable {K : Type} (env : CacheEnv K)

theorem cacheFile_eq (key : Pubkey) :
    cacheFile env key = below (cacheDir env) ++ (key.text ++ ".json") :=
  join_name (slash_not_mem_name key)

/-- No two positions share a file. -/
theorem cacheFile_injective {a b : Pubkey} (same : cacheFile env a = cacheFile env b) : a = b := by
  rw [cacheFile_eq, cacheFile_eq, ← String.toList_inj] at same
  simp only [String.toList_append] at same
  have texts := List.append_cancel_right (List.append_cancel_left same)
  exact Pubkey.text_injective (String.toList_inj.mp texts)

end Paths

/-! ### What a command does to the files -/

section Calls

variable {K : Type} {env : CacheEnv K} {may : Outcome → Prop} {inv : Files → Prop}
  {mint : String}

/-- Reading leaves the files alone. -/
theorem answer_readToString {files t : Files} {path : String} {x : Outcome}
    {a : Except String String} (given : answer files (.readToString path) x = some (a, t)) :
    t = files ∧ (files path = a.toOption ∨ ∃ e, x = .unreadable e ∧ a = .error e) := by
  cases x with
  | works =>
    simp only [answer] at given
    split at given
    next text found =>
      cases given
      exact ⟨rfl, Or.inl found⟩
    next missing =>
      cases given
      exact ⟨rfl, Or.inl missing⟩
  | refused e => cases given
  | unreadable e =>
    cases given
    exact ⟨rfl, Or.inr ⟨e, rfl, rfl⟩⟩

/-- What `load_entry_price` makes of what it has read. -/
def found (env : CacheEnv K) (content : Except String String) : Option K :=
  content.toOption.bind env.json.entryPrice

theorem keeps_load {post : Option K → Prop} (invalid : Pubkey.fromStr mint = none → post none)
    (reads : ∀ key, Pubkey.fromStr mint = some key → ∀ s x a t, inv s → may x →
      answer s (.readToString (cacheFile env key)) x = some (a, t) → post (found env a)) :
    Keeps answer may inv post (loadEntryPrice env mint) := by
  unfold loadEntryPrice cachePath
  cases parsed : Pubkey.fromStr mint with
  | none => exact .done (invalid parsed)
  | some key =>
    have asked : Keeps answer may inv (fun a => post (found env a))
        (readToString (cacheFile env key)) :=
      .question fun s x a t holds allowed given =>
        ⟨(answer_readToString given).1 ▸ holds, reads key parsed s x a t holds allowed given⟩
    refine .bind asked ?_
    rintro (e | content) ended
    · exact .done ended
    · exact .done ended

/-- A call that may be refused, and otherwise has its effect. -/
theorem keeps_call {q : FileCall} {post : Reply q → Prop} (effect : Files → Files)
    (effective : ∀ s, inv s → inv (effect s)) (any : ∀ a, post a)
    (changes : ∀ s x a t, answer s q x = some (a, t) → t = s ∨ t = effect s) :
    Keeps answer may inv post (question q) := by
  refine .question fun s x a t holds _ given => ⟨?_, any a⟩
  rcases changes s x a t given with rfl | rfl
  · exact holds
  · exact effective s holds

theorem answer_create {files t : Files} {path : String} {x : Outcome} {a : Except String Unit}
    (given : answer files (.create path) x = some (a, t)) :
    t = files ∨ t = Function.update files path (some "") := by
  cases x with
  | works => exact Or.inr (by cases given; rfl)
  | refused e => exact Or.inl (by cases given; rfl)
  | unreadable e => cases given

theorem answer_writeAll {files t : Files} {path text : String} {x : Outcome}
    {a : Except String Unit} (given : answer files (.writeAll path text) x = some (a, t)) :
    t = files ∨
      t = Function.update files path (some (overlay text ((files path).getD ""))) := by
  cases x with
  | works => exact Or.inr (by cases given; rfl)
  | refused e => exact Or.inl (by cases given; rfl)
  | unreadable e => cases given

theorem answer_createDirAll {files t : Files} {dir : String} {x : Outcome}
    {a : Except String Unit} (given : answer files (.createDirAll dir) x = some (a, t)) :
    t = files := by
  cases x with
  | works => cases given; rfl
  | refused e => cases given; rfl
  | unreadable e => cases given

/-- The invariant outlives that the price is written for the mint. -/
structure Allows (env : CacheEnv K) (inv : Files → Prop) (mint : String) (price : K) : Prop where
  emptied : ∀ key, Pubkey.fromStr mint = some key → ∀ s, inv s →
    inv (Function.update s (cacheFile env key) (some ""))
  written : ∀ key, Pubkey.fromStr mint = some key → ∀ s, inv s →
    inv (Function.update s (cacheFile env key)
      (some (overlay (env.json.toStringPretty price) ((s (cacheFile env key)).getD ""))))

theorem keeps_save {price : K} (allows : Allows env inv mint price) :
    Keeps answer may inv (fun _ => True) (saveEntryPrice env mint price).run := by
  unfold saveEntryPrice cachePath
  cases parsed : Pubkey.fromStr mint with
  | none => exact .done trivial
  | some key =>
    have opened : Keeps answer may inv (fun _ => True) (createDirAll (cacheDir env)).run :=
      keeps_call id (fun _ holds => holds) (fun _ => trivial)
        fun _ _ _ _ given => Or.inl (answer_createDirAll given)
    have created : Keeps answer may inv (fun _ => True)
        (question (.create (cacheFile env key))) :=
      keeps_call _ (allows.emptied key parsed) (fun _ => trivial) fun _ _ _ _ => answer_create
    have filled : Keeps answer may inv (fun _ => True)
        (question (.writeAll (cacheFile env key) (env.json.toStringPretty price))) :=
      keeps_call _ (allows.written key parsed) (fun _ => trivial) fun _ _ _ _ => answer_writeAll
    have wrote : Keeps answer may inv (fun _ => True)
        (write (cacheFile env key) (env.json.toStringPretty price)).run :=
      .andThen created (fun _ _ => trivial) fun _ _ => filled
    change Keeps answer may inv _
      (createDirAll (cacheDir env) >>= fun _ => write (cacheFile env key) _).run
    exact .andThen opened (fun _ _ => trivial) fun _ _ => wrote

/-- A watch uses the price that it finds, or else the one that it observes. -/
theorem keeps_firstObservation {entryPriceAtStart : K} {gives : K → Prop}
    (saves : Allows env inv mint entryPriceAtStart)
    (loads : Keeps answer may inv (fun cached => ∀ price, cached = some price → gives price)
      (loadEntryPrice env mint)) :
    Keeps answer may inv (fun price => price = entryPriceAtStart ∨ gives price)
      (firstObservation env mint entryPriceAtStart) := by
  have again : Keeps answer may inv (fun price => price = entryPriceAtStart ∨ gives price)
      (loadEntryPrice env mint >>= fun again => pure (again.getD entryPriceAtStart)) := by
    refine .bind loads fun cached given => .done ?_
    cases cached with
    | none => exact Or.inl rfl
    | some price => exact Or.inr (given price rfl)
  refine .bind loads fun cached _ => ?_
  dsimp only
  split
  next => exact .bind (keeps_save saves) fun _ _ => again
  next => exact again

/-- A command returns a price that it offers, zero, or what it finds in the file. -/
theorem keeps_run [Zero K] {u : Use K} {gives : K → Prop}
    (saves : ∀ price ∈ u.offered env, Allows env inv u.mint price)
    (loads : Keeps answer may inv (fun cached => ∀ price, cached = some price → gives price)
      (loadEntryPrice env u.mint)) :
    Keeps answer may inv (fun result => ∀ price, result = .ok price →
      price ∈ u.offered env ∨ (∃ mint, u = .resolve mint none ∧ price = 0) ∨ gives price)
      (u.run env) := by
  cases u with
  | resolve mint flag =>
    cases flag with
    -- a price given by flag is saved before it is used
    | some ep =>
      refine .andThen (keeps_save (saves ep (by simp [Use.offered]))) (by simp) fun _ _ => .done ?_
      rintro price ⟨⟩
      exact Or.inl (by simp [Use.offered])
    | none =>
      refine .andThen loads.lift (by simp) ?_
      rintro cached ⟨_, ⟨⟩, given⟩
      cases cached with
      | some ep => exact .done (by rintro price ⟨⟩; exact Or.inr (Or.inr (given ep rfl)))
      | none => exact .done (by rintro price ⟨⟩; exact Or.inr (Or.inl ⟨mint, rfl, rfl⟩))
  | watch mint flag entryPriceAtStart =>
    cases flag with
    | none =>
      have mine : entryPriceAtStart ∈ (Use.watch mint none entryPriceAtStart).offered env := by
        simp [Use.offered]
      -- without the flag watch takes the price in the file, or saves that of its start
      refine (keeps_firstObservation (saves _ mine) loads).lift.weaken ?_
      rintro result ⟨_, rfl, rfl | given⟩ price ⟨⟩
      · exact Or.inl mine
      · exact Or.inr (Or.inr given)
    | some ep =>
      simp only [Use.run, entryPriceForWatch]
      split
      -- a price that is not positive is refused before any file is touched
      next refused => exact .done (by rintro price ⟨⟩)
      next accepted =>
        have mine : ep ∈ (Use.watch mint (some ep) entryPriceAtStart).offered env ∧
            entryPriceAtStart ∈ (Use.watch mint (some ep) entryPriceAtStart).offered env := by
          simp [Use.offered, accepted]
        refine .andThen (keeps_save (saves _ mine.1)) (by simp) fun _ _ => ?_
        refine (keeps_firstObservation (saves _ mine.2) loads).lift.weaken ?_
        rintro result ⟨_, rfl, rfl | given⟩ price ⟨⟩
        · exact Or.inl mine.2
        · exact Or.inr (Or.inr given)

/-- A command without a flag that always finds the same price returns it. -/
theorem keeps_unflagged [Zero K] {u : Use K} {price : K} (unflagged : u.flag = none)
    (loads : Keeps answer may inv (fun cached => cached = some price) (loadEntryPrice env u.mint)) :
    Keeps answer may inv (fun result => result = .ok price) (u.run env) := by
  cases u with
  | resolve mint flag =>
    cases unflagged
    refine .andThen loads.lift (by simp) ?_
    rintro cached ⟨_, ⟨⟩, rfl⟩
    exact .done rfl
  | watch mint flag entryPriceAtStart =>
    cases unflagged
    have uses : Keeps answer may inv (fun used => used = price)
        (firstObservation env mint entryPriceAtStart) := by
      refine .bind loads fun cached given => ?_
      subst given
      exact .bind loads fun again given => .done (by rw [given]; rfl)
    refine uses.lift.weaken ?_
    rintro result ⟨_, rfl, rfl⟩
    rfl

end Calls

/-! ### A watch and two readers -/

section WholeDollars

/-- What `serde_json` writes before and after a number of whole dollars. -/
def jsonBefore : List Char := "\x7b\n  \"entry_price\": ".toList

def jsonBehind : List Char := ".0\n\x7d".toList

def dollarsText (n : ℕ) : String := String.ofList (jsonBefore ++ (Nat.toDigits 10 n ++ jsonBehind))

def dollarsDigits (text : String) : List Char :=
  (text.toList.drop jsonBefore.length).takeWhile Char.isDigit

def dollarsOf (text : String) : Option ℕ :=
  (parseUnsigned (10 ^ 15) (dollarsDigits text)).filter fun n =>
    dollarsDigits text = Nat.toDigits 10 n ∧ (dollarsText n).toList <+: text.toList ∧
      (text.toList.drop (dollarsText n).toList.length).all Char.isWhitespace

theorem dollarsDigits_text (n : ℕ) (rest : String) :
    dollarsDigits (dollarsText n ++ rest) = Nat.toDigits 10 n := by
  have digits : ∀ c ∈ Nat.toDigits 10 n, c.isDigit = true := fun c member =>
    Nat.isDigit_of_mem_toDigits (by decide) (by decide) member
  have stops : (jsonBehind ++ rest.toList).takeWhile Char.isDigit = [] := by
    have point : jsonBehind = '.' :: ['0', '\n', '\x7d'] := by decide
    rw [point, List.cons_append, List.takeWhile_cons_of_neg (by decide)]
  rw [dollarsDigits, dollarsText, String.toList_append, String.toList_ofList, List.append_assoc,
    List.append_assoc, List.drop_left, List.takeWhile_append_of_pos digits, stops,
    List.append_nil]

def dollars : PriceJson ℕ where
  toStringPretty := dollarsText
  entryPrice := dollarsOf
  empty := by decide
  trailing := by
    intro x rest price read
    obtain ⟨parsed, same⟩ := Option.filter_eq_some_iff.mp read
    have alone := dollarsDigits_text x ""
    rw [dollarsDigits_text] at parsed same
    rw [String.append_empty] at alone
    have digits := (of_decide_eq_true same).1
    refine Option.filter_eq_some_iff.mpr ⟨by rw [alone]; exact parsed, decide_eq_true ?_⟩
    have whole : dollarsText price = dollarsText x := by rw [dollarsText, dollarsText, digits]
    refine ⟨alone.trans digits, by rw [whole], ?_⟩
    rw [whole, List.drop_length]
    rfl

def dollarsEnv : CacheEnv ℕ where
  json := dollars
  xdgDataHome := none
  home := some "/home/lp"
  parseError := fun _ => "Invalid Base58 string"
  nonPositive := fun n => n = 0
  display := fun n => String.ofList (Nat.toDigits 10 n)

def somePosition : Pubkey :=
  #v[1, 2, 3, 4, 5, 6, 7, 8, 9, 10, 11, 12, 13, 14, 15, 16,
    17, 18, 19, 20, 21, 22, 23, 24, 25, 26, 27, 28, 29, 30, 31, 32]

/-- A watch that sees 150 dollars, and readers of the same position. -/
def fewUses : ℕ → Use ℕ
  | 0 => .watch (somePosition.text) none 150
  | _ => .resolve (somePosition.text) none

/-- The first reader finds the file while it is being written, the second one afterwards. -/
def fewCalls : List (ℕ × Outcome) :=
  [0, 0, 0, 1, 0, 0, 2].map fun i => (i, Outcome.works)

/-- With a price in the file there is nothing to write. -/
def readCalls : List (ℕ × Outcome) := [0, 1, 0, 2].map fun i => (i, Outcome.works)

end WholeDollars
/-! ### Any commands, in any order -/

section Interleaved

variable {K ι : Type} (env : CacheEnv K) (uses : ι → Use K) (files : Files)
  (es : List (ι × Outcome))

/-- A command of the run was given this mint, and offers the price. -/
def Offered (key : Pubkey) (price : K) : Prop :=
  ∃ e ∈ es, Pubkey.fromStr (uses e.1).mint = some key ∧ price ∈ (uses e.1).offered env

/-- What the files hold comes from the start or from a command that was given the mint. -/
structure Sourced (s : Files) : Prop where
  cached : ∀ key, s (cacheFile env key) = files (cacheFile env key) ∨
    s (cacheFile env key) = some "" ∨ ∃ price, Offered env uses es key price ∧
      ∃ rest, s (cacheFile env key) = some (env.json.toStringPretty price ++ rest)
  inside : ∀ path, s path ≠ files path →
    ∃ e ∈ es, ∃ key, Pubkey.fromStr (uses e.1).mint = some key ∧ path = cacheFile env key

/-- The price that a command finds for its mint. -/
def Gives (mint : String) (price : K) : Prop :=
  ∃ key, Pubkey.fromStr mint = some key ∧
    ((∃ text, files (cacheFile env key) = some text ∧ env.json.entryPrice text = some price) ∨
      ∃ x, Offered env uses es key x ∧
        env.json.entryPrice (env.json.toStringPretty x) = some price)

variable {env uses files es}

theorem Sourced.update {s : Files} (sourced : Sourced env uses files es s) {e : ι × Outcome}
    (part : e ∈ es) {key : Pubkey} (parsed : Pubkey.fromStr (uses e.1).mint = some key)
    {text : String} (content : text = "" ∨ ∃ price ∈ (uses e.1).offered env, ∃ rest,
      text = env.json.toStringPretty price ++ rest) :
    Sourced env uses files es (Function.update s (cacheFile env key) (some text)) := by
  constructor
  · intro other
    by_cases same : other = key
    · subst same
      rw [Function.update_self]
      rcases content with rfl | ⟨price, offered, rest, rfl⟩
      · exact Or.inr (Or.inl rfl)
      · exact Or.inr (Or.inr ⟨price, ⟨e, part, parsed, offered⟩, rest, rfl⟩)
    · rw [Function.update_of_ne fun file => same (cacheFile_injective env file)]
      exact sourced.cached other
  · intro path changed
    by_cases same : path = cacheFile env key
    · exact ⟨e, part, key, parsed, same⟩
    · rw [Function.update_of_ne same] at changed
      exact sourced.inside path changed

theorem allows_offered {e : ι × Outcome} (part : e ∈ es) {price : K}
    (offered : price ∈ (uses e.1).offered env) :
    Allows env (Sourced env uses files es) (uses e.1).mint price where
  emptied := fun _ parsed _ sourced => sourced.update part parsed (Or.inl rfl)
  written := fun _ parsed _ sourced =>
    sourced.update part parsed (Or.inr ⟨price, offered, _, rfl⟩)

theorem Sourced.gives {s : Files} (sourced : Sourced env uses files es s) {mint text : String}
    {key : Pubkey} (parsed : Pubkey.fromStr mint = some key)
    (here : s (cacheFile env key) = some text) {price : K}
    (reads : env.json.entryPrice text = some price) : Gives env uses files es mint price := by
  rcases sourced.cached key with old | blank | ⟨x, offered, rest, new⟩
  · exact ⟨key, parsed, Or.inl ⟨text, old ▸ here, reads⟩⟩
  · -- nothing is read in a file that is being written
    obtain rfl := Option.some.inj (blank.symm.trans here)
    rw [env.json.empty] at reads
    cases reads
  · obtain rfl := Option.some.inj (new.symm.trans here)
    exact ⟨key, parsed, Or.inr ⟨x, offered, env.json.trailing x rest price reads⟩⟩

theorem sourced_loads (mint : String) :
    Keeps answer (fun _ => True) (Sourced env uses files es)
      (fun cached => ∀ price, cached = some price → Gives env uses files es mint price)
      (loadEntryPrice env mint) := by
  refine keeps_load (by simp) fun key parsed s x a t sourced _ given price read => ?_
  obtain ⟨text, here, reads⟩ := Option.bind_eq_some_iff.mp read
  rcases (answer_readToString given).2 with same | ⟨e, -, rfl⟩
  · exact sourced.gives parsed (same.trans here) reads
  · cases here

variable [Zero K] [DecidableEq ι] {c : Interleaving Files ι Reply (Except String K)}

theorem sound_sourced (played : run (Interleaving.step answer) (start env uses files) es = some c) :
    Interleaving.Sound answer (fun _ => True) (Sourced env uses files es)
      (fun i => ∃ x, (i, x) ∈ es)
      (fun i result => ∀ price, result = .ok price →
        price ∈ (uses i).offered env ∨ (∃ mint, uses i = .resolve mint none ∧ price = 0) ∨
          Gives env uses files es (uses i).mint price) c := by
  refine Interleaving.run_sound (fun e member => ⟨e.2, member⟩) (fun _ _ => trivial) ⟨?_, ?_⟩ played
  · exact ⟨fun key => Or.inl rfl, fun path changed => absurd rfl changed⟩
  · rintro i ⟨x, member⟩
    exact keeps_run (fun price offered => allows_offered member offered) (sourced_loads _)

/-- However the commands are interleaved, and whichever of their file operations fail, the entry
price that a command gets is its own, zero for want of one, or what is read of the file of its
mint: from before, or as a command with the same mint has written it. -/
theorem price_sourced
    (played : run (Interleaving.step answer) (start env uses files) es = some c)
    {e : ι × Outcome} (part : e ∈ es) {price : K}
    (returned : (c.programs e.1).returned = some (.ok price)) :
    price ∈ (uses e.1).offered env ∨ (∃ mint, uses e.1 = .resolve mint none ∧ price = 0) ∨
      ∃ key, Pubkey.fromStr (uses e.1).mint = some key ∧
        ((∃ text, files (cacheFile env key) = some text ∧ env.json.entryPrice text = some price) ∨
          ∃ d ∈ es, Pubkey.fromStr (uses d.1).mint = some key ∧ ∃ x ∈ (uses d.1).offered env,
            env.json.entryPrice (env.json.toStringPretty x) = some price) := by
  have ended := (sound_sourced played).returned ⟨e.2, part⟩ returned price rfl
  rcases ended with own | zero | ⟨key, parsed, before | ⟨x, ⟨d, member, same, offered⟩, reads⟩⟩
  · exact Or.inl own
  · exact Or.inr (Or.inl zero)
  · exact Or.inr (Or.inr ⟨key, parsed, Or.inl before⟩)
  · exact Or.inr (Or.inr ⟨key, parsed, Or.inr ⟨d, member, same, x, offered, reads⟩⟩)

theorem price_sourced_few : ∃ c, run (Interleaving.step answer)
      (start dollarsEnv fewUses fun _ => none) fewCalls = some c ∧
    (c.programs 2).returned = some (.ok 150) ∧
    (150 ∈ (fewUses 2).offered dollarsEnv ∨
      (∃ mint, fewUses 2 = .resolve mint none ∧ 150 = 0) ∨
      ∃ key, Pubkey.fromStr (fewUses 2).mint = some key ∧
        ((∃ text, none = some text ∧ dollarsOf text = some 150) ∨
          ∃ d ∈ fewCalls, Pubkey.fromStr (fewUses d.1).mint = some key ∧
            ∃ x ∈ (fewUses d.1).offered dollarsEnv, dollarsOf (dollarsText x) = some 150)) := by
  have ended : (run (Interleaving.step answer) (start dollarsEnv fewUses fun _ => none)
      fewCalls).map (fun c => (c.programs 2).returned) = some (some (.ok 150)) := by decide +kernel
  obtain ⟨c, played, returned⟩ := Option.map_eq_some_iff.mp ended
  have part : (2, Outcome.works) ∈ fewCalls := by simp [fewCalls]
  exact ⟨c, played, returned, price_sourced played part returned⟩

/-- Whatever mints the commands are given, a file that has changed lies in the cache directory,
under the name of a mint that was given and is 32 bytes in base 58. -/
theorem files_inside
    (played : run (Interleaving.step answer) (start env uses files) es = some c) {path : String}
    (changed : c.shared path ≠ files path) :
    ∃ e ∈ es, ∃ key, (uses e.1).mint = Pubkey.text key ∧ '/' ∉ (uses e.1).mint.toList ∧
      path = below (cacheDir env) ++ ((uses e.1).mint ++ ".json") := by
  obtain ⟨e, part, key, parsed, rfl⟩ := (sound_sourced played).holds.inside path changed
  have named := Pubkey.fromStr_some_iff.mp parsed
  refine ⟨e, part, key, named, ?_, by rw [named, cacheFile_eq]⟩
  rw [named]
  exact fun slash => absurd (Pubkey.text_chars key '/' slash) (by decide)

theorem files_inside_few : ∃ c, run (Interleaving.step answer)
      (start dollarsEnv fewUses fun _ => none) fewCalls = some c ∧
    ∃ e ∈ fewCalls, ∃ key, (fewUses e.1).mint = Pubkey.text key ∧ '/' ∉ (fewUses e.1).mint.toList ∧
      cacheFile dollarsEnv somePosition =
        below (cacheDir dollarsEnv) ++ ((fewUses e.1).mint ++ ".json") := by
  have wrote : (run (Interleaving.step answer) (start dollarsEnv fewUses fun _ => none)
      fewCalls).map (fun c => c.shared (cacheFile dollarsEnv somePosition)) =
        some (some (dollarsText 150)) := by decide +kernel
  obtain ⟨c, played, written⟩ := Option.map_eq_some_iff.mp wrote
  exact ⟨c, played, files_inside played (by rw [written]; exact Option.some_ne_none _)⟩

/-- A price that can be read stays, and every command without a flag gets it, as long as no
command with the same mint has a flag and no read fails; commands with other mints do as they
like. -/
theorem price_settled {key : Pubkey} {text : String} {price : K}
    (cached : files (cacheFile env key) = some text)
    (reads : env.json.entryPrice text = some price)
    (unflagged : ∀ e ∈ es, Pubkey.fromStr (uses e.1).mint = some key → (uses e.1).flag = none)
    (readable : ∀ e ∈ es, ∀ error, e.2 ≠ .unreadable error)
    (played : run (Interleaving.step answer) (start env uses files) es = some c) :
    c.shared (cacheFile env key) = some text ∧
      ∀ e ∈ es, Pubkey.fromStr (uses e.1).mint = some key →
        ∀ result, (c.programs e.1).returned = some result → result = .ok price := by
  have loads (mint : String) (parsed : Pubkey.fromStr mint = some key) :
      Keeps answer (fun x => ∀ error, x ≠ .unreadable error)
        (fun s => s (cacheFile env key) = some text) (fun cached => cached = some price)
        (loadEntryPrice env mint) := by
    refine keeps_load (by simp [parsed]) fun other named s x a t holds allowed given => ?_
    obtain rfl := Option.some.inj (parsed.symm.trans named)
    rcases (answer_readToString given).2 with same | ⟨error, broken, -⟩
    · rw [found, ← same, holds]
      exact reads
    · exact absurd broken (allowed error)
  have keeps : ∀ i, (∃ x, (i, x) ∈ es) → Keeps answer (fun x => ∀ error, x ≠ .unreadable error)
      (fun s => s (cacheFile env key) = some text)
      (fun result => Pubkey.fromStr (uses i).mint = some key → result = .ok price)
      ((uses i).run env) := by
    rintro i ⟨x, part⟩
    by_cases named : Pubkey.fromStr (uses i).mint = some key
    · exact (keeps_unflagged (unflagged _ part named) (loads _ named)).weaken
        fun result ended _ => ended
    · -- another file
      have elsewhere : ∀ other, Pubkey.fromStr (uses i).mint = some other →
          cacheFile env key ≠ cacheFile env other := fun other parsed file =>
        named (cacheFile_injective env file ▸ parsed)
      have allows (price : K) :
          Allows env (fun s => s (cacheFile env key) = some text) (uses i).mint price := by
        constructor
        all_goals
          intro other parsed s holds
          rwa [Function.update_of_ne (elsewhere other parsed)]
      have any : Keeps answer (fun x => ∀ error, x ≠ .unreadable error)
          (fun s => s (cacheFile env key) = some text)
          (fun cached => ∀ price, cached = some price → True) (loadEntryPrice env (uses i).mint) :=
        keeps_load (by simp) (by simp)
      exact (keeps_run (fun price _ => allows price) any).weaken
        fun result _ parsed => absurd parsed named
  have sound := Interleaving.run_sound (fun e member => ⟨e.2, member⟩) readable
    ⟨cached, keeps⟩ played
  exact ⟨sound.holds, fun e part named result returned =>
    sound.returned ⟨e.2, part⟩ returned named⟩

theorem price_settled_few : ∃ c, run (Interleaving.step answer)
      (start dollarsEnv fewUses fun _ => some (dollarsText 120)) readCalls = some c ∧
    c.shared (cacheFile dollarsEnv somePosition) = some (dollarsText 120) ∧
      ∀ e ∈ readCalls, Pubkey.fromStr (fewUses e.1).mint = some somePosition →
        ∀ result, (c.programs e.1).returned = some result → result = .ok 120 := by
  have plays : (run (Interleaving.step answer)
      (start dollarsEnv fewUses fun _ => some (dollarsText 120)) readCalls).isSome = true := by
    decide +kernel
  obtain ⟨c, played⟩ := Option.isSome_iff_exists.mp plays
  refine ⟨c, played, price_settled rfl (by decide +kernel) ?_ ?_ played⟩
  · rintro ⟨i, x⟩ - -
    cases i <;> rfl
  · rintro e member error broken
    obtain ⟨i, -, rfl⟩ := List.mem_map.mp member
    cases broken

end Interleaved

end TickLiq.Cache
