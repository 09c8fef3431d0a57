import TickLiq.Machine.Conversation
import TickLiq.Machine.Utf8
import TickLiq.Protocols.Pubkeys
import TickLiq.Protocols.TokenMetadata

/-!
# Reading accounts off the chain

A command asks the RPC node for one account after the other and decodes what it gets. Any request
may fail and is then sent again, and the chain moves on between two requests; nothing is decoded
before its owner is checked.
-/
namespace TickLiq.Rpc

open Machine (Bytes Conversation Exchange Panic mulChecked addChecked)
open Machine.Conversation

structure Account where
  owner : Pubkey
  data : Bytes
deriving DecidableEq

/-- A request, and the programs whose accounts are asked for. The node does not see these: the
owner is checked when the answer is there. -/
inductive Request where
  | getAccount (address : Pubkey) (owners : List Pubkey)
  | getMultipleAccounts (addresses : List Pubkey) (owners : List Pubkey)
deriving DecidableEq

/-- What a request is for. -/
abbrev Found : Request → Type
  | .getAccount .. => Account
  | .getMultipleAccounts .. => List (Option Account)

/-- The client gives it, or the text of its error. A missing account is an error too. -/
abbrev Answer (q : Request) : Type := Except String (Found q)

/-- How a command ends early. -/
inductive Stop where
  | error (text : String)
  | panicked (panic : Panic)
deriving DecidableEq

abbrev Reading := ExceptT Stop (Conversation Answer)

/-- The parts of `solana_sdk::pubkey` that are not worked out: the text of the error of
`Pubkey::from_str`, and `Pubkey::find_program_address`. -/
structure Keys where
  parseError : String → String
  findProgramAddress : List Bytes → Pubkey → Pubkey

/-- `WHIRLPOOL_PROGRAM_ID` -/
def whirlpoolProgramPubkey : Pubkey :=
  #v[14, 3, 104, 95, 142, 144, 144, 83, 228, 88, 18, 28, 102, 245, 167, 106,
    237, 199, 112, 106, 161, 28, 130, 248, 170, 149, 42, 143, 43, 120, 121, 169]

example : Pubkey.text whirlpoolProgramPubkey = "whirLbMiicVdio4qvUfM5KAg6Ct8VwpYzGff3uctyCc" := by
  decide +kernel

/-- `SPL_TOKEN_PROGRAM_ID`, "TokenkegQfeZyiNwAJbNbGKPFXCWuBvf9Ss623VQ5DA" -/
def splTokenProgramId : Pubkey :=
  #v[6, 221, 246, 225, 215, 101, 161, 147, 217, 203, 225, 70, 206, 235, 121, 172,
    28, 180, 133, 237, 95, 91, 55, 145, 58, 140, 245, 133, 126, 255, 0, 169]

/-- `SPL_TOKEN_2022_PROGRAM_ID`, "TokenzQdBNbLqP5VEhdkAS6EPFLC1PHnBqCXEpPxuEb" -/
def splToken2022ProgramId : Pubkey :=
  #v[6, 221, 246, 225, 238, 117, 143, 222, 24, 66, 93, 188, 228, 108, 205, 218,
    182, 26, 252, 77, 131, 185, 13, 39, 254, 189, 249, 40, 216, 161, 139, 252]

def mintDecimalsOffset : ℕ := 44

/-! ### The client -/

def failing {α : Type} (result : Except String α) : Except Stop α := result.mapError .error

def panicking {α : Type} (result : Except Panic α) : Except Stop α := result.mapError .panicked

/-- `Pubkey::from_str`, and the text of its error. -/
def parseAddress (address failure : String) : Except Stop Pubkey :=
  match Pubkey.fromStr address with
  | some key => .ok key
  | none => .error (.error failure)

/-- `SolanaRpc::retry` around one request; `read` is what the closure makes of the answer. -/
def retry {α : Type} (label : String) (q : Request) (read : Answer q → Except Stop α) : Reading α :=
  tries (inquiry q read) (.error s!"{label}: no attempts made") maxAttempts

def verifyOwner (address : String) (actual expected : Pubkey) : Except Stop Unit :=
  if actual ≠ expected then
    .error (.error s!"Account '{address}' has owner {actual.text} but expected program {expected.text}")
  else .ok ()

def fetchAccountChecked (keys : Keys) (address : String) (expectedOwner : Pubkey) :
    Reading Bytes := do
  let pubkey ← liftExcept
    (parseAddress address s!"Invalid address '{address}': {keys.parseError address}")
  let account : Account ← retry s!"get_account({address})"
    (.getAccount pubkey [expectedOwner]) fun answer =>
      answer.mapError fun e => .error s!"Account '{address}' not found: {e}"
  liftExcept (verifyOwner address account.owner expectedOwner)
  return account.data

/-- One slot of the reply. -/
def checkedData (expectedOwner : Pubkey) : Option Account → Option Bytes
  | some acct => if acct.owner = expectedOwner then some acct.data else none
  | none => none

def getMultipleAccountsChecked (pubkeys : List Pubkey) (expectedOwner : Pubkey) :
    Reading (List (Option Bytes)) := do
  let accounts : List (Option Account) ←
    retry "get_multiple_accounts" (.getMultipleAccounts pubkeys [expectedOwner]) fun answer =>
      answer.mapError fun e => .error s!"get_multiple_accounts failed: {e}"
  return (accounts.zip pubkeys).map fun slot => checkedData expectedOwner slot.1

/-- The decimals of a mint account, once it is there. -/
def mintDecimals (mint : Pubkey) (account : Account) : Except Stop ℕ :=
  if account.owner ≠ splTokenProgramId ∧ account.owner ≠ splToken2022ProgramId then
    .error (.error s!"Mint account '{mint.text}' has owner {account.owner.text} but expected SPL Token ({splTokenProgramId.text}) or Token-2022 ({splToken2022ProgramId.text})")
  else
    match account.data[mintDecimalsOffset]? with
    | some decimals => .ok decimals.toNat
    | none =>
      .error (.error s!"Mint account '{mint.text}' data too short ({account.data.length} bytes)")

def fetchMintDecimals (mint : Pubkey) : Reading ℕ := do
  let account : Account ← retry s!"get_account(mint={mint.text})"
    (.getAccount mint [splTokenProgramId, splToken2022ProgramId]) fun answer =>
      answer.mapError fun e => .error s!"Mint account '{mint.text}' not found: {e}"
  liftExcept (mintDecimals mint account)

/-! ### What the commands read -/

def positionPda (keys : Keys) (mint program : Pubkey) : Pubkey :=
  keys.findProgramAddress [Machine.encode "position".toList, mint.toList] program

def tickArrayPda (keys : Keys) (whirlpool : Pubkey) (startTickIndex : ℤ) : Pubkey :=
  keys.findProgramAddress [Machine.encode "tick_array".toList, whirlpool.toList,
    Machine.encode (toString startTickIndex).toList] whirlpoolProgramPubkey

def loadOrcaPositionAndPool (keys : Keys) (mint : String) :
    Reading (Pubkey × Orca.WhirlpoolPosition × Orca.WhirlpoolPool) := do
  let mintPubkey ← liftExcept (parseAddress mint (keys.parseError mint))
  let pda := positionPda keys mintPubkey whirlpoolProgramPubkey
  let positionData ← fetchAccountChecked keys pda.text whirlpoolProgramPubkey
  let pos ← liftExcept (failing (Orca.parsePosition positionData))
  let poolData ← fetchAccountChecked keys (Pubkey.text pos.whirlpool) whirlpoolProgramPubkey
  let pool ← liftExcept (failing (Orca.parsePool poolData))
  return (pda, pos, pool)

/-- The starts of the five arrays, as the source computes them. -/
def tickArrayStarts (checks : Bool) (currentTick : ℤ) (tickSpacing : ℕ) :
    Except Panic (List ℤ) := do
  let span ← tickArraySpan checks tickSpacing
  let centerStart ← tickArrayStartIndex checks currentTick tickSpacing
  [-2, -1, 0, 1, 2].mapM fun o => do
    let offset ← mulChecked checks 32 o span
    addChecked checks 32 centerStart offset

def parseSampled (bytes : Bytes) : Except String TickArray :=
  (Orca.parseTickArray bytes).map sampledArray

def fetchTickArrays (keys : Keys) (checks : Bool) (whirlpool : Pubkey) (currentTick : ℤ)
    (tickSpacing : ℕ) : Reading (List TickArray) := do
  let starts ← liftExcept (panicking (tickArrayStarts checks currentTick tickSpacing))
  let datas ← getMultipleAccountsChecked (starts.map (tickArrayPda keys whirlpool))
    whirlpoolProgramPubkey
  return (starts.zip datas).filterMap fun account => fetchedArray parseSampled account.2

/-! ### Requests sent again -/

/-- The answers after which a request is sent again. -/
def Refused (q : Request) (answer : Answer q) : Prop := ∃ e, answer = .error e

theorem mapError_error_iff {α ε δ : Type} {answer : Except ε α} {text : ε → δ} :
    (∃ e, answer.mapError text = .error e) ↔ ∃ e, answer = .error e := by
  cases answer <;> simp [Except.mapError]

theorem mapError_ok_iff {α ε δ : Type} {answer : Except ε α} {text : ε → δ} {v : α} :
    answer.mapError text = .ok v ↔ answer = .ok v := by
  cases answer <;> simp [Except.mapError]

theorem retrying_retry (label : String) (q : Request) (text : String → Stop) :
    Retrying Refused maxAttempts (retry label q fun answer => answer.mapError text) := by
  refine .tries _ (fun answer => mapError_error_iff.mp) ?_
  rintro answer ⟨v, read⟩ ⟨e, refused⟩
  rw [mapError_ok_iff.mp read] at refused
  cases refused

theorem retry_asks (label : String) (q : Request) (read : Answer q → Except Stop (Found q)) :
    AsksAtMost maxAttempts (retry label q read).run := AsksAtMost.tries q read _ maxAttempts

/-! ### What is never read -/

/-- The account without its bytes, if none of these programs owns it. -/
def Account.blank (owners : List Pubkey) (account : Account) : Account :=
  if account.owner ∈ owners then account else { account with data := [] }

def blankFound : (q : Request) → Found q → Found q
  | .getAccount _ owners, account => Account.blank owners account
  | .getMultipleAccounts _ owners, accounts => List.map (Option.map (Account.blank owners)) accounts

/-- What an account holds is taken out of the answer, unless a program that was asked for owns
it. -/
def blankExchange (x : Exchange Answer) : Exchange Answer := ⟨x.1, x.2.map (blankFound x.1)⟩

/-- What other programs wrote in their accounts makes no difference. -/
def Blind {α : Type} (c : Reading α) : Prop :=
  ∀ log result, Held c.run log result → Held c.run (log.map blankExchange) result

theorem Account.blank_owner (owners : List Pubkey) (account : Account) :
    (account.blank owners).owner = account.owner := by
  unfold blank
  split <;> rfl

theorem Account.blank_data {owners : List Pubkey} {account : Account}
    (read : account.owner ∈ owners) : account.blank owners = account := if_pos read

theorem held_retry_blank {label : String} {q : Request} {text : String → Stop}
    {log : List (Exchange Answer)} {result : Except Stop (Found q)}
    (held : Held (retry label q fun answer => answer.mapError text).run log result) :
    Held (retry label q fun answer => answer.mapError text).run (log.map blankExchange)
      (result.map (blankFound q)) := by
  refine held_tries_map (g := fun q answer => answer.map (blankFound q)) (h := blankFound q) ?_ held
  intro answer
  cases answer <;> rfl

namespace Blind

theorem computed {α : Type} (result : Except Stop α) : Blind (liftExcept result) := by
  intro log computed held
  obtain ⟨rfl, same⟩ := held_liftExcept_iff.mp held
  exact held_liftExcept_iff.mpr ⟨rfl, same⟩

theorem andThen {α β : Type} {c : Reading α} {f : α → Reading β} (first : Blind c)
    (second : ∀ a, Blind (f a)) : Blind (c >>= f) := by
  intro log result held
  rcases held_andThen_iff.mp held with ⟨e, failed, rfl⟩ | ⟨a, before, after, rfl, ran, goes⟩
  · exact held_andThen_iff.mpr (Or.inl ⟨e, first _ _ failed, rfl⟩)
  · exact held_andThen_iff.mpr (Or.inr ⟨a, _, _, List.map_append, first _ _ ran,
      second a _ _ goes⟩)

theorem recover {α : Type} {c : Reading α} {f : Stop → Reading α} (first : Blind c)
    (second : ∀ e, Blind (f e)) : Blind (tryCatch c f) := by
  intro log result held
  rcases held_recover_iff.mp held with ⟨a, ran, rfl⟩ | ⟨e, before, after, rfl, failed, goes⟩
  · exact held_recover_iff.mpr (Or.inl ⟨a, first _ _ ran, rfl⟩)
  · exact held_recover_iff.mpr (Or.inr ⟨e, _, _, List.map_append, first _ _ failed,
      second e _ _ goes⟩)

/-- What is found may be used where it is used alike without those bytes. -/
theorem retryThen {β : Type} {label : String} {q : Request} {text : String → Stop}
    {f : Found q → Reading β} (alike : ∀ found, f (blankFound q found) = f found)
    (second : ∀ found, Blind (f found)) :
    Blind ((retry label q fun answer => answer.mapError text) >>= f) := by
  intro log result held
  rcases held_andThen_iff.mp held with ⟨e, failed, rfl⟩ | ⟨found, before, after, rfl, ran, goes⟩
  · exact held_andThen_iff.mpr (Or.inl ⟨e, held_retry_blank failed, rfl⟩)
  · refine held_andThen_iff.mpr (Or.inr ⟨blankFound q found, _, _, List.map_append,
      held_retry_blank ran, ?_⟩)
    rw [alike]
    exact second found _ _ goes

end Blind

theorem blind_fetchAccountChecked (keys : Keys) (address : String) (expectedOwner : Pubkey) :
    Blind (fetchAccountChecked keys address expectedOwner) := by
  refine .andThen (.computed _) fun _ => .retryThen ?_ fun _ =>
    .andThen (.computed _) fun _ => .computed (.ok _)
  intro (account : Account)
  show (liftExcept (verifyOwner address (account.blank [expectedOwner]).owner expectedOwner) >>=
    fun _ => pure (account.blank [expectedOwner]).data : Reading Bytes) = _
  by_cases owned : account.owner = expectedOwner
  · rw [Account.blank_data (by simp [owned])]
  · -- refused for its owner, whatever it holds
    rw [Account.blank_owner, verifyOwner, if_pos owned]
    rfl

theorem mintDecimals_blank (mint : Pubkey) (account : Account) :
    mintDecimals mint (account.blank [splTokenProgramId, splToken2022ProgramId]) =
      mintDecimals mint account := by
  by_cases read : account.owner ∈ [splTokenProgramId, splToken2022ProgramId]
  · rw [Account.blank_data read]
  · have foreign : account.owner ≠ splTokenProgramId ∧ account.owner ≠ splToken2022ProgramId := by
      simpa using read
    rw [mintDecimals, mintDecimals, Account.blank_owner, if_pos foreign, if_pos foreign]

theorem blind_fetchMintDecimals (mint : Pubkey) : Blind (fetchMintDecimals mint) := by
  refine .retryThen ?_ fun _ => .computed _
  intro (account : Account)
  exact congrArg liftExcept (mintDecimals_blank mint account)

theorem checkedData_blank (expectedOwner : Pubkey) (slot : Option Account) :
    checkedData expectedOwner (slot.map (Account.blank [expectedOwner])) =
      checkedData expectedOwner slot := by
  cases slot with
  | none => rfl
  | some account =>
    simp only [Option.map_some, checkedData, Account.blank_owner]
    split
    next owned => rw [Account.blank_data (by simp [owned])]
    next => rfl

theorem blind_getMultipleAccountsChecked (pubkeys : List Pubkey) (expectedOwner : Pubkey) :
    Blind (getMultipleAccountsChecked pubkeys expectedOwner) := by
  refine .retryThen ?_ fun _ => .computed (.ok _)
  intro (accounts : List (Option Account))
  show (pure (List.map _ (List.zip
    (List.map (Option.map (Account.blank [expectedOwner])) accounts) pubkeys)) :
      Reading (List (Option Bytes))) = _
  rw [List.zip_map_left, List.map_map]
  congr 2
  funext slot
  exact checkedData_blank expectedOwner slot.1

/-! ### Programs that check every owner -/

/-- The program reads accounts through the checked fetches alone, with at most `n` requests. -/
inductive OwnerChecked : ℕ → {α : Type} → Reading α → Prop
  | computed {α : Type} (result : Except Stop α) : OwnerChecked 0 (liftExcept result)
  | account (keys : Keys) (address : String) (expectedOwner : Pubkey) :
      OwnerChecked maxAttempts (fetchAccountChecked keys address expectedOwner)
  | accounts (pubkeys : List Pubkey) (expectedOwner : Pubkey) :
      OwnerChecked maxAttempts (getMultipleAccountsChecked pubkeys expectedOwner)
  | mint (mint : Pubkey) : OwnerChecked maxAttempts (fetchMintDecimals mint)
  | andThen {α β : Type} {m n : ℕ} {c : Reading α} {f : α → Reading β} (first : OwnerChecked m c)
      (second : ∀ a, OwnerChecked n (f a)) : OwnerChecked (m + n) (c >>= f)
  | recover {α : Type} {m n : ℕ} {c : Reading α} {f : Stop → Reading α} (first : OwnerChecked m c)
      (second : ∀ e, OwnerChecked n (f e)) : OwnerChecked (m + n) (tryCatch c f)

namespace OwnerChecked

variable {α : Type} {n : ℕ} {c : Reading α}

theorem counted {m : ℕ} (checked : OwnerChecked m c) (same : m = n) : OwnerChecked n c :=
  same ▸ checked

/-- Every request is sent up to three times. -/
theorem retrying (checked : OwnerChecked n c) : Retrying Refused maxAttempts c := by
  induction checked with
  | computed result => exact .computed result
  | account keys address =>
    exact .andThen (.computed _) fun _ => .andThen (retrying_retry _ _ _) fun _ =>
      .andThen (.computed _) fun _ => .computed (.ok _)
  | accounts pubkeys => exact .andThen (retrying_retry _ _ _) fun _ => .computed (.ok _)
  | mint mint => exact .andThen (retrying_retry _ _ _) fun _ => .computed _
  | andThen _ _ first second => exact .andThen first second
  | recover _ _ first second => exact .recover first second

theorem asks (checked : OwnerChecked n c) : AsksAtMost n c.run := by
  induction checked with
  | computed result => exact .liftExcept result
  | account keys address =>
    refine ((AsksAtMost.liftExcept _).andThen fun _ => (retry_asks _ _ _).andThen fun _ =>
      (AsksAtMost.liftExcept _).andThen fun _ => .liftExcept (.ok _)).mono ?_
    omega
  | accounts pubkeys => exact (retry_asks _ _ _).andThen fun _ => .liftExcept (.ok _)
  | mint mint => exact (retry_asks _ _ _).andThen fun _ => .liftExcept _
  | andThen _ _ first second => exact first.andThen second
  | recover _ _ first second => exact first.recover second

theorem blind (checked : OwnerChecked n c) : Blind c := by
  induction checked with
  | computed result => exact .computed result
  | account keys address owner => exact blind_fetchAccountChecked keys address owner
  | accounts pubkeys owner => exact blind_getMultipleAccountsChecked pubkeys owner
  | mint mint => exact blind_fetchMintDecimals mint
  | andThen _ _ first second => exact .andThen first second
  | recover _ _ first second => exact .recover first second

end OwnerChecked

theorem OwnerChecked.loadOrcaPositionAndPool (keys : Keys) (mint : String) :
    OwnerChecked (2 * maxAttempts) (Rpc.loadOrcaPositionAndPool keys mint) :=
  counted (.andThen (.computed _) fun _ => .andThen (.account _ _ _) fun _ =>
    .andThen (.computed _) fun _ => .andThen (.account _ _ _) fun _ =>
      .andThen (.computed _) fun _ => .computed (.ok _)) rfl

theorem OwnerChecked.fetchTickArrays (keys : Keys) (checks : Bool) (whirlpool : Pubkey)
    (currentTick : ℤ) (tickSpacing : ℕ) : OwnerChecked maxAttempts
      (Rpc.fetchTickArrays keys checks whirlpool currentTick tickSpacing) :=
  counted (.andThen (.computed _) fun _ => .andThen (.accounts _ _) fun _ =>
    .computed (.ok _)) rfl

/-! ### A chain that moves on -/

abbrev Chain := Pubkey → Option Account

def Chain.found (chain : Chain) : (q : Request) → Option (Found q)
  | .getAccount address _ => chain address
  | .getMultipleAccounts addresses _ => some (addresses.map chain)

/-- The answer is a refusal, or what the chain holds. -/
def Truthful (chain : Chain) (x : Exchange Answer) : Prop :=
  ∀ found, x.2 = .ok found → chain.found x.1 = some found

/-- The program where nothing fails: each request finds its own chain. -/
def standing {α : Type} : Conversation Answer α → List Chain → Option α
  | .done result, [] => some result
  | .ask q next, chain :: chains =>
    (chain.found q).bind fun found => standing (next (.ok found)) chains
  | _, _ => none

theorem held_standing {α : Type} {c : Conversation Answer α} (history : ℕ → Chain)
    {timed : List (ℕ × Exchange Answer)} {result : α}
    (truthful : ∀ x ∈ timed, Truthful (history x.1) x.2)
    (counts : ∀ x ∈ timed, ¬Refused x.2.1 x.2.2) (held : Held c (timed.map Prod.snd) result) :
    standing c (timed.map fun x => history x.1) = some result := by
  induction timed generalizing c with
  | nil =>
    cases held
    rfl
  | cons x timed ih =>
    obtain ⟨moment, q, answer⟩ := x
    cases held with
    | ask rest =>
      cases answer with
      | error e => exact absurd ⟨e, rfl⟩ (counts _ List.mem_cons_self)
      | ok found =>
        have there := truthful _ List.mem_cons_self found rfl
        simp only [List.map_cons, standing, there, Option.bind_some]
        exact ih (fun x member => truthful x (List.mem_cons_of_mem _ member))
          (fun x member => counts x (List.mem_cons_of_mem _ member)) rest

/-- Failures in between make no difference, unless a request is given up. -/
theorem OwnerChecked.settles {α : Type} {n : ℕ} {c : Reading α} (checked : OwnerChecked n c)
    (history : ℕ → Chain) {timed : List (ℕ × Exchange Answer)}
    (truthful : ∀ x ∈ timed, Truthful (history x.1) x.2) {result : Except Stop α}
    (held : Held c.run (timed.map Prod.snd) result) :
    GaveUp Refused maxAttempts (timed.map Prod.snd) ∨
      ∃ moments : List ℕ, moments.Sublist (timed.map Prod.fst) ∧
        standing c.run (moments.map history) = some result := by
  rcases checked.retrying.settles (by decide) held with gaveUp | ⟨accepted, kept, counts, alone⟩
  · exact Or.inl gaveUp
  · obtain ⟨reads, sublist, rfl⟩ := List.sublist_map_iff.mp kept
    have found := held_standing history
      (fun x member => truthful x (sublist.subset member))
      (fun x member => counts x.2 (List.mem_map_of_mem member)) alone
    refine Or.inr ⟨reads.map Prod.fst, sublist.map Prod.fst, ?_⟩
    rw [List.map_map]
    exact found

/-! ### A chain that stands still -/

theorem standing_bind {α β : Type} {c : Conversation Answer α} {f : α → Conversation Answer β}
    {chains : List Chain} {result : β} (returned : standing (c >>= f) chains = some result) :
    ∃ a before after, chains = before ++ after ∧ standing c before = some a ∧
      standing (f a) after = some result := by
  induction c generalizing chains with
  | done a => exact ⟨a, [], chains, rfl, rfl, returned⟩
  | ask q next ih =>
    cases chains with
    | nil => cases returned
    | cons chain chains =>
      obtain ⟨found, there, returned⟩ := Option.bind_eq_some_iff.mp returned
      obtain ⟨a, before, after, rfl, ran, goes⟩ := ih _ returned
      refine ⟨a, chain :: before, after, rfl, ?_, goes⟩
      simp only [standing, there, Option.bind_some, ran]

/-- Whenever the program returns on this chain, it returns `v`. -/
def Gives {α : Type} (chain : Chain) (c : Reading α) (v : α) : Prop :=
  ∀ n result, standing c.run (List.replicate n chain) = some result → result = .ok v

namespace Gives

variable {chain : Chain}

theorem computed {α : Type} {result : Except Stop α} {v : α} (same : result = .ok v) :
    Gives chain (liftExcept result) v := by
  rw [same]
  intro n result returned
  cases n with
  | zero =>
    cases returned
    rfl
  | succ n => cases returned

theorem andThen {α β : Type} {c : Reading α} {f : α → Reading β} {v : α} {w : β}
    (first : Gives chain c v) (second : Gives chain (f v) w) : Gives chain (c >>= f) w := by
  intro n result returned
  obtain ⟨a, before, after, split, ran, goes⟩ := standing_bind returned
  obtain ⟨_, before', after'⟩ := List.append_eq_replicate_iff.mp split.symm
  rw [before'] at ran
  rw [after'] at goes
  obtain rfl := first _ _ ran
  exact second _ _ goes

theorem retry {label : String} {q : Request} {text : String → Stop} {found : Found q}
    (there : chain.found q = some found) :
    Gives chain (Rpc.retry label q fun answer => answer.mapError text) found := by
  intro n result returned
  cases n with
  | zero => cases returned
  | succ n =>
    have once : (chain.found q).bind (fun found =>
        standing (.done (.ok found : Except Stop (Found q))) (List.replicate n chain)) =
        some result := returned
    rw [there, Option.bind_some] at once
    exact computed rfl n result once

theorem account {keys : Keys} {key expectedOwner : Pubkey} {acct : Account}
    (there : chain key = some acct) (owned : acct.owner = expectedOwner) :
    Gives chain (fetchAccountChecked keys key.text expectedOwner) acct.data := by
  refine .andThen (v := key) (.computed ?_) (.andThen (.retry there)
    (.andThen (v := ()) (.computed ?_) (.computed rfl)))
  · rw [parseAddress, Pubkey.fromStr_text]
  · exact if_neg (by simpa using owned)

theorem mint {mint : Pubkey} {acct : Account} {decimals : ℕ} (there : chain mint = some acct)
    (read : mintDecimals mint acct = .ok decimals) : Gives chain (fetchMintDecimals mint) decimals :=
  .andThen (.retry there) (.computed read)

theorem accounts (pubkeys : List Pubkey) (expectedOwner : Pubkey) :
    Gives chain (getMultipleAccountsChecked pubkeys expectedOwner)
      (pubkeys.map fun key => checkedData expectedOwner (chain key)) := by
  refine .andThen (v := pubkeys.map chain) (.retry rfl) ?_
  have slots : (pubkeys.map chain).zip pubkeys = pubkeys.map fun key => (chain key, key) := by
    simpa using List.zip_map' (f := chain) (g := id) (l := pubkeys)
  show Gives chain (pure _) _
  rw [slots, List.map_map]
  exact .computed rfl

/-- On a chain that stands still, a program that does not give up is led to its value. -/
theorem held {α : Type} {n : ℕ} {c : Reading α} {v : α} (gives : Gives chain c v)
    (checked : OwnerChecked n c) {log : List (Exchange Answer)}
    (truthful : ∀ x ∈ log, Truthful chain x) {result : Except Stop α}
    (held : Held c.run log result) : GaveUp Refused maxAttempts log ∨ result = .ok v := by
  have timed : (log.map fun x => (0, x)).map Prod.snd = log := by
    rw [List.map_map]
    exact List.map_id log
  have sourced : ∀ x ∈ log.map fun x => ((0 : ℕ), x), Truthful chain x.2 := by
    intro x member
    obtain ⟨y, inside, rfl⟩ := List.mem_map.mp member
    exact truthful y inside
  have settled := checked.settles (fun _ => chain) sourced (by rwa [timed])
  rw [timed] at settled
  rcases settled with gaveUp | ⟨moments, -, returned⟩
  · exact Or.inl gaveUp
  · rw [List.map_const'] at returned
    exact Or.inr (gives _ result returned)

end Gives

end TickLiq.Rpc
