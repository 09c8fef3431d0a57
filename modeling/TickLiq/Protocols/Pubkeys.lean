import TickLiq.Machine.Radix
import TickLiq.Protocols.Accounts

/-!
# Public keys as text

A key is 32 bytes, written in base 58 with one `1` for each leading zero byte. No two texts
name the same key, so what was parsed is what is printed again.
-/
namespace TickLiq.Pubkey

open Machine

def alphabet : List Char :=
  ['1', '2', '3', '4', '5', '6', '7', '8', '9', 'A', 'B', 'C', 'D', 'E', 'F', 'G', 'H', 'J', 'K',
    'L', 'M', 'N', 'P', 'Q', 'R', 'S', 'T', 'U', 'V', 'W', 'X', 'Y', 'Z', 'a', 'b', 'c', 'd', 'e',
    'f', 'g', 'h', 'i', 'j', 'k', 'm', 'n', 'o', 'p', 'q', 'r', 's', 't', 'u', 'v', 'w', 'x', 'y',
    'z']

def base58Char (d : ℕ) : Char := alphabet.getD d '1'

def base58Digit (c : Char) : Option ℕ := alphabet.idxOf? c

/-- `to_string` -/
def text (key : Pubkey) : String :=
  String.ofList ((changeRadix 256 58 (key.toList.map UInt8.toNat)).map base58Char)

/-- `Pubkey::from_str`, without the kinds of its error. -/
def fromStr (s : String) : Option Pubkey := do
  let digits ← s.toList.mapM base58Digit
  let bytes := (changeRadix 58 256 digits).map UInt8.ofNat
  if size : bytes.length = 32 then some ⟨bytes.toArray, by simpa using size⟩ else none

/-! ### The alphabet -/

theorem base58Digit_char : ∀ d < 58, base58Digit (base58Char d) = some d := by decide

theorem base58Char_digit {c : Char} {d : ℕ} (digit : base58Digit c = some d) :
    base58Char d = c ∧ d < 58 := by
  have found : d < alphabet.length ∧ alphabet[d]? = some c := by
    obtain ⟨inside, same, _⟩ := List.idxOf?_eq_some_iff.mp digit
    exact ⟨inside, by rw [List.getElem?_eq_getElem inside]; simpa using same⟩
  refine ⟨?_, found.1⟩
  rw [base58Char, List.getD_eq_getElem?_getD, found.2, Option.getD_some]

theorem digits_chars {ds : List ℕ} (digit : ∀ d ∈ ds, d < 58) :
    (ds.map base58Char).mapM base58Digit = some ds := by
  induction ds with
  | nil => rfl
  | cons d ds ih =>
    rw [List.map_cons, List.mapM_cons, base58Digit_char d (digit d (by simp)),
      ih fun e member => digit e (List.mem_cons_of_mem _ member)]
    rfl

theorem chars_digits {cs : List Char} {ds : List ℕ} (digits : cs.mapM base58Digit = some ds) :
    ds.map base58Char = cs ∧ ∀ d ∈ ds, d < 58 := by
  induction cs generalizing ds with
  | nil =>
    cases digits
    simp
  | cons c cs ih =>
    rw [List.mapM_cons] at digits
    obtain ⟨d, first, digits⟩ := Option.bind_eq_some_iff.mp digits
    obtain ⟨rest, others, digits⟩ := Option.bind_eq_some_iff.mp digits
    cases digits
    obtain ⟨char, inside⟩ := base58Char_digit first
    obtain ⟨chars, all⟩ := ih others
    exact ⟨by rw [List.map_cons, char, chars], by simpa using ⟨inside, all⟩⟩

/-! ### The round trip -/

theorem bytes_toNat (bytes : Bytes) : (bytes.map UInt8.toNat).map UInt8.ofNat = bytes := by
  rw [List.map_map]
  exact List.map_id'' (fun b => UInt8.ofNat_toNat) bytes

theorem toNat_bytes {ns : List ℕ} (byte : ∀ n ∈ ns, n < 256) :
    (ns.map UInt8.ofNat).map UInt8.toNat = ns := by
  rw [List.map_map]
  have each : ∀ n ∈ ns, (UInt8.toNat ∘ UInt8.ofNat) n = n := by
    intro n member
    simp only [Function.comp_apply, UInt8.toNat_ofNat']
    exact Nat.mod_eq_of_lt (byte n member)
  rw [List.map_congr_left each, List.map_id']

theorem fromStr_text (key : Pubkey) : fromStr (text key) = some key := by
  have bytes : ∀ d ∈ key.toList.map UInt8.toNat, d < 256 := by
    intro d member
    obtain ⟨b, _, rfl⟩ := List.mem_map.mp member
    exact b.toNat_lt
  have back := changeRadix_changeRadix (by decide : 1 < 256) 58 bytes
  have digits := digits_chars (changeRadix_lt 256 (by decide : 1 < 58) (key.toList.map UInt8.toNat))
  simp only [fromStr, text, String.toList_ofList, digits, Option.bind_eq_bind, Option.bind_some,
    back, bytes_toNat, Vector.length_toList, dif_pos]
  rfl

/-- A text that names a key is the text of that key. -/
theorem fromStr_some_iff {s : String} {key : Pubkey} : fromStr s = some key ↔ s = text key := by
  constructor
  · intro parsed
    obtain ⟨digits, read, parsed⟩ := Option.bind_eq_some_iff.mp parsed
    obtain ⟨chars, inside⟩ := chars_digits read
    dsimp only at parsed
    split at parsed
    next size =>
      cases parsed
      have back := changeRadix_changeRadix (by decide : 1 < 58) 256 inside
      have bytes := toNat_bytes (changeRadix_lt 58 (by decide : 1 < 256) digits)
      simp only [text, Vector.toList_mk, bytes, back, chars,
        String.ofList_toList]
    next => cases parsed
  · rintro rfl
    exact fromStr_text key

theorem text_injective {a b : Pubkey} (same : text a = text b) : a = b :=
  Option.some.inj ((fromStr_text a).symm.trans (same ▸ fromStr_text b))

/-- Every character of a key's text stands in the alphabet. -/
theorem text_chars (key : Pubkey) : ∀ c ∈ (text key).toList, c ∈ alphabet := by
  intro c member
  rw [text, String.toList_ofList] at member
  obtain ⟨d, digit, rfl⟩ := List.mem_map.mp member
  have inside := changeRadix_lt 256 (by decide : 1 < 58) _ d digit
  rw [base58Char, List.getD_eq_getElem?_getD, List.getElem?_eq_getElem inside, Option.getD_some]
  exact List.getElem_mem _

end TickLiq.Pubkey
