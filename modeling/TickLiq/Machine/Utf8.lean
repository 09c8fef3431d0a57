import TickLiq.Machine.LittleEndian

/-!
# UTF-8 read character by character

A first byte announces how many bytes its character has, and the range of the second byte
keeps out what has a shorter form, the surrogates and what lies above the last code point.
Reading stops at the first byte that cannot continue its character and says where that
character began. What is read in full is exactly the encoding of the characters read.
-/
namespace Machine

/-- The bytes before `validUpTo` encode characters; `errorLen` bytes there belong to none, or
the input ends inside a character. -/
structure Utf8Error where
  validUpTo : ℕ
  errorLen : Option ℕ
deriving DecidableEq

/-- The width that a first byte announces, zero where no character begins with it. -/
def charWidth (first : UInt8) : ℕ :=
  if first.toNat < 0x80 then 1
  else if 0xC2 ≤ first.toNat ∧ first.toNat ≤ 0xDF then 2
  else if 0xE0 ≤ first.toNat ∧ first.toNat ≤ 0xEF then 3
  else if 0xF0 ≤ first.toNat ∧ first.toNat ≤ 0xF4 then 4
  else 0

/-- The least byte that may stand second. -/
def secondLeast (first : UInt8) : ℕ :=
  if first.toNat = 0xE0 then 0xA0 else if first.toNat = 0xF0 then 0x90 else 0x80

/-- The greatest byte that may stand second. -/
def secondGreatest (first : UInt8) : ℕ :=
  if first.toNat = 0xED then 0x9F else if first.toNat = 0xF4 then 0x8F else 0xBF

/-- The next byte of a character of which `read` bytes are read. -/
def nextByte (least greatest read : ℕ) : Bytes → Except (Option ℕ) (UInt8 × Bytes)
  -- the input ends inside the character
  | [] => .error none
  | b :: rest =>
    if least ≤ b.toNat ∧ b.toNat ≤ greatest then .ok (b, rest) else .error (some read)

/-- The first character and the bytes after it, or the length of the error. -/
def decodeChar : Bytes → Except (Option ℕ) (Char × Bytes)
  | [] => .error none
  | first :: rest =>
    match charWidth first with
    | 1 => .ok (Char.ofNat first.toNat, rest)
    | 2 => do
      let (second, rest) ← nextByte 0x80 0xBF 1 rest
      return (Char.ofNat (first.toNat % 32 * 64 + second.toNat % 64), rest)
    | 3 => do
      let (second, rest) ← nextByte (secondLeast first) (secondGreatest first) 1 rest
      let (third, rest) ← nextByte 0x80 0xBF 2 rest
      return (Char.ofNat (first.toNat % 16 * 4096 + second.toNat % 64 * 64 + third.toNat % 64),
        rest)
    | 4 => do
      let (second, rest) ← nextByte (secondLeast first) (secondGreatest first) 1 rest
      let (third, rest) ← nextByte 0x80 0xBF 2 rest
      let (fourth, rest) ← nextByte 0x80 0xBF 3 rest
      return (Char.ofNat (first.toNat % 8 * 262144 + second.toNat % 64 * 4096
        + third.toNat % 64 * 64 + fourth.toNat % 64), rest)
    -- a continuation byte, a long form of ASCII, or beyond the last code point
    | _ => .error (some 1)

/-- `fuel` is at least the number of bytes, of which a character takes at least one. -/
def decodeFrom : ℕ → ℕ → Bytes → Except Utf8Error (List Char)
  | 0, _, _ => .ok []
  | _ + 1, _, [] => .ok []
  | fuel + 1, index, first :: rest =>
    match decodeChar (first :: rest) with
    -- the error stands where its character began, not where it broke off
    | .error errorLen => .error ⟨index, errorLen⟩
    | .ok (c, after) => (decodeFrom fuel (index + charWidth first) after).map (c :: ·)

def fromUtf8 (bytes : Bytes) : Except Utf8Error (List Char) := decodeFrom bytes.length 0 bytes

/-- The bytes of the characters one after the other. -/
def encode (cs : List Char) : Bytes := cs.flatMap String.utf8EncodeChar

@[simp] theorem encode_nil : encode [] = [] := rfl

@[simp] theorem encode_cons (c : Char) (cs : List Char) :
    encode (c :: cs) = String.utf8EncodeChar c ++ encode cs := rfl

@[simp] theorem encode_append (cs ds : List Char) : encode (cs ++ ds) = encode cs ++ encode ds :=
  List.flatMap_append

/-- The bytes of a string are its characters encoded. -/
theorem toUTF8_encode (s : String) : s.toUTF8.data.toList = encode s.toList := by
  rw [String.toUTF8_eq_toByteArray, ← String.utf8Encode_toList]
  exact List.toList_data_toByteArray

/-! ### One character -/

theorem nextByte_ok_iff {least greatest read : ℕ} {bytes rest : Bytes} {b : UInt8} :
    nextByte least greatest read bytes = .ok (b, rest) ↔
      bytes = b :: rest ∧ least ≤ b.toNat ∧ b.toNat ≤ greatest := by
  cases bytes with
  | nil => simp [nextByte]
  | cons first after =>
    simp only [nextByte]
    split
    next inside =>
      simp only [Except.ok.injEq, Prod.mk.injEq, List.cons.injEq]
      constructor
      · rintro ⟨rfl, rfl⟩
        exact ⟨⟨rfl, rfl⟩, inside⟩
      · intro read
        exact read.1
    next outside =>
      simp only [reduceCtorEq, List.cons.injEq, false_iff]
      rintro ⟨⟨rfl, rfl⟩, inside⟩
      exact outside inside

theorem nextByte_inside {least greatest : ℕ} {b : UInt8} (read : ℕ) (rest : Bytes)
    (lower : least ≤ b.toNat) (upper : b.toNat ≤ greatest) :
    nextByte least greatest read (b :: rest) = .ok (b, rest) :=
  nextByte_ok_iff.mpr ⟨rfl, lower, upper⟩

/-- What follows a byte read has read it inside its range. -/
theorem nextByte_bind_ok_iff {α : Type} {least greatest read : ℕ} {bytes : Bytes} {a : α}
    {f : UInt8 × Bytes → Except (Option ℕ) α} :
    (nextByte least greatest read bytes >>= f) = .ok a ↔
      ∃ b rest, bytes = b :: rest ∧ (least ≤ b.toNat ∧ b.toNat ≤ greatest) ∧
        f (b, rest) = .ok a := by
  rw [bind_ok_iff]
  constructor
  · rintro ⟨⟨b, rest⟩, next, continued⟩
    obtain ⟨shape, range⟩ := nextByte_ok_iff.mp next
    exact ⟨b, rest, shape, range, continued⟩
  · rintro ⟨b, rest, shape, range, continued⟩
    exact ⟨(b, rest), nextByte_ok_iff.mpr ⟨shape, range⟩, continued⟩

theorem charWidth_cases (first : UInt8) :
    charWidth first = 1 ∧ first.toNat < 0x80 ∨
    charWidth first = 2 ∧ 0xC2 ≤ first.toNat ∧ first.toNat ≤ 0xDF ∨
    charWidth first = 3 ∧ 0xE0 ≤ first.toNat ∧ first.toNat ≤ 0xEF ∨
    charWidth first = 4 ∧ 0xF0 ≤ first.toNat ∧ first.toNat ≤ 0xF4 ∨
    charWidth first = 0 ∧ 0x80 ≤ first.toNat ∧
      (first.toNat < 0xC2 ∨ 0xF4 < first.toNat) := by
  unfold charWidth
  repeat' split
  all_goals omega

theorem secondLeast_cases (first : UInt8) :
    first.toNat = 0xE0 ∧ secondLeast first = 0xA0 ∨
    first.toNat = 0xF0 ∧ secondLeast first = 0x90 ∨
    first.toNat ≠ 0xE0 ∧ first.toNat ≠ 0xF0 ∧ secondLeast first = 0x80 := by
  unfold secondLeast
  repeat' split
  all_goals omega

theorem secondGreatest_cases (first : UInt8) :
    first.toNat = 0xED ∧ secondGreatest first = 0x9F ∨
    first.toNat = 0xF4 ∧ secondGreatest first = 0x8F ∨
    first.toNat ≠ 0xED ∧ first.toNat ≠ 0xF4 ∧ secondGreatest first = 0xBF := by
  unfold secondGreatest
  repeat' split
  all_goals omega

theorem byte_toNat {n : ℕ} (fits : n < 256) : (UInt8.ofNat n).toNat = n :=
  UInt8.toNat_ofNat_of_lt' fits

theorem decodeChar_one {v : ℕ} (rest : Bytes) (upper : v ≤ 0x7F) :
    decodeChar (UInt8.ofNat v :: rest) = .ok (Char.ofNat v, rest) := by
  have first := byte_toNat (show v < 256 by omega)
  have width : charWidth (UInt8.ofNat v) = 1 := by
    have := charWidth_cases (UInt8.ofNat v)
    omega
  simp only [decodeChar, width, first]

theorem decodeChar_two {v : ℕ} (rest : Bytes) (lower : 0x7F < v) (upper : v ≤ 0x7FF) :
    decodeChar (UInt8.ofNat (v / 64 % 0x20 + 0xC0) :: UInt8.ofNat (v % 0x40 + 0x80) :: rest) =
      .ok (Char.ofNat v, rest) := by
  have first := byte_toNat (show v / 64 % 0x20 + 0xC0 < 256 by omega)
  have second := byte_toNat (show v % 0x40 + 0x80 < 256 by omega)
  generalize UInt8.ofNat (v / 64 % 0x20 + 0xC0) = a at first
  generalize UInt8.ofNat (v % 0x40 + 0x80) = b at second
  have width : charWidth a = 2 := by
    have := charWidth_cases a
    omega
  have value : a.toNat % 32 * 64 + b.toNat % 64 = v := by omega
  simp only [decodeChar, width]
  rw [nextByte_inside 1 rest (by omega) (by omega), ok_bind]
  simp only [value]
  rfl

theorem decodeChar_three {v : ℕ} (rest : Bytes) (lower : 0x7FF < v) (upper : v ≤ 0xFFFF)
    (valid : v < 0xD800 ∨ 0xDFFF < v) :
    decodeChar (UInt8.ofNat (v / 4096 % 0x10 + 0xE0) :: UInt8.ofNat (v / 64 % 0x40 + 0x80) ::
      UInt8.ofNat (v % 0x40 + 0x80) :: rest) = .ok (Char.ofNat v, rest) := by
  have first := byte_toNat (show v / 4096 % 0x10 + 0xE0 < 256 by omega)
  have second := byte_toNat (show v / 64 % 0x40 + 0x80 < 256 by omega)
  have third := byte_toNat (show v % 0x40 + 0x80 < 256 by omega)
  generalize UInt8.ofNat (v / 4096 % 0x10 + 0xE0) = a at first
  generalize UInt8.ofNat (v / 64 % 0x40 + 0x80) = b at second
  generalize UInt8.ofNat (v % 0x40 + 0x80) = c at third
  have width : charWidth a = 3 := by
    have := charWidth_cases a
    omega
  have value : a.toNat % 16 * 4096 + b.toNat % 64 * 64 + c.toNat % 64 = v := by omega
  -- a second byte below the least would be a shorter form, one above the greatest a surrogate
  have inside : secondLeast a ≤ b.toNat ∧ b.toNat ≤ secondGreatest a := by
    have least := secondLeast_cases a
    have greatest := secondGreatest_cases a
    omega
  simp only [decodeChar, width]
  rw [nextByte_inside 1 _ inside.1 inside.2, ok_bind]
  dsimp only
  rw [nextByte_inside 2 rest (by omega) (by omega), ok_bind]
  simp only [value]
  rfl

theorem decodeChar_four {v : ℕ} (rest : Bytes) (lower : 0xFFFF < v) (upper : v < 0x110000) :
    decodeChar (UInt8.ofNat (v / 262144 % 0x08 + 0xF0) :: UInt8.ofNat (v / 4096 % 0x40 + 0x80) ::
      UInt8.ofNat (v / 64 % 0x40 + 0x80) :: UInt8.ofNat (v % 0x40 + 0x80) :: rest) =
        .ok (Char.ofNat v, rest) := by
  have first := byte_toNat (show v / 262144 % 0x08 + 0xF0 < 256 by omega)
  have second := byte_toNat (show v / 4096 % 0x40 + 0x80 < 256 by omega)
  have third := byte_toNat (show v / 64 % 0x40 + 0x80 < 256 by omega)
  have fourth := byte_toNat (show v % 0x40 + 0x80 < 256 by omega)
  generalize UInt8.ofNat (v / 262144 % 0x08 + 0xF0) = a at first
  generalize UInt8.ofNat (v / 4096 % 0x40 + 0x80) = b at second
  generalize UInt8.ofNat (v / 64 % 0x40 + 0x80) = c at third
  generalize UInt8.ofNat (v % 0x40 + 0x80) = d at fourth
  have width : charWidth a = 4 := by
    have := charWidth_cases a
    omega
  have value : a.toNat % 8 * 262144 + b.toNat % 64 * 4096 + c.toNat % 64 * 64 + d.toNat % 64 = v := by
    omega
  -- here the greatest keeps what lies above the last code point out
  have inside : secondLeast a ≤ b.toNat ∧ b.toNat ≤ secondGreatest a := by
    have least := secondLeast_cases a
    have greatest := secondGreatest_cases a
    omega
  simp only [decodeChar, width]
  rw [nextByte_inside 1 _ inside.1 inside.2, ok_bind]
  dsimp only
  rw [nextByte_inside 2 _ (by omega) (by omega), ok_bind]
  dsimp only
  rw [nextByte_inside 3 rest (by omega) (by omega), ok_bind]
  simp only [value]
  rfl

/-- A character is read back from its bytes, whatever follows them. -/
theorem decodeChar_encode (c : Char) (rest : Bytes) :
    decodeChar (String.utf8EncodeChar c ++ rest) = .ok (c, rest) := by
  have valid : c.val.toNat < 0xD800 ∨ 0xDFFF < c.val.toNat ∧ c.val.toNat < 0x110000 := c.valid
  have back : Char.ofNat c.val.toNat = c := c.ofNat_toNat
  unfold String.utf8EncodeChar
  generalize c.val.toNat = v at valid back
  subst back
  dsimp only
  split
  next upper => exact decodeChar_one rest upper
  split
  next lower upper => exact decodeChar_two rest (by omega) upper
  split
  next lower upper => exact decodeChar_three rest (by omega) upper (by omega)
  next lower => exact decodeChar_four rest (by omega) (by omega)

theorem ofNat_value {v : ℕ} (valid : v < 0xD800 ∨ 0xDFFF < v ∧ v < 0x110000) :
    (Char.ofNat v).val.toNat = v := by
  have code : v.isValidChar := valid
  rw [Char.ofNat, dif_pos code]
  rfl

theorem byte_eq {n : ℕ} {b : UInt8} (same : n = b.toNat) : UInt8.ofNat n = b := by
  rw [same, UInt8.ofNat_toNat]

/-- What is read as a character is its encoding, so no other bytes pass for one. -/
theorem decodeChar_sound {first : UInt8} {rest after : Bytes} {c : Char}
    (decoded : decodeChar (first :: rest) = .ok (c, after)) :
    first :: rest = String.utf8EncodeChar c ++ after ∧
      (String.utf8EncodeChar c).length = charWidth first := by
  have least := secondLeast_cases first
  have greatest := secondGreatest_cases first
  unfold String.utf8EncodeChar
  rcases charWidth_cases first with
    ⟨width, lead⟩ | ⟨width, lead⟩ | ⟨width, lead⟩ | ⟨width, lead⟩ | ⟨width, lead⟩
  · simp only [decodeChar, width] at decoded
    cases decoded
    rw [ofNat_value (by omega)]
    dsimp only
    rw [if_pos (by omega), byte_eq rfl]
    exact ⟨rfl, width.symm⟩
  · simp only [decodeChar, width, nextByte_bind_ok_iff] at decoded
    obtain ⟨second, after, rfl, second_range, decoded⟩ := decoded
    cases decoded
    rw [ofNat_value (by omega)]
    dsimp only
    rw [if_neg (by omega), if_pos (by omega)]
    rw [byte_eq (b := first) (by omega), byte_eq (b := second) (by omega)]
    exact ⟨rfl, width.symm⟩
  · simp only [decodeChar, width, nextByte_bind_ok_iff] at decoded
    obtain ⟨second, after, rfl, second_range, third, after, rfl, third_range, decoded⟩ := decoded
    cases decoded
    rw [ofNat_value (by omega)]
    dsimp only
    rw [if_neg (by omega), if_neg (by omega), if_pos (by omega)]
    rw [byte_eq (b := first) (by omega), byte_eq (b := second) (by omega),
      byte_eq (b := third) (by omega)]
    exact ⟨rfl, width.symm⟩
  · simp only [decodeChar, width, nextByte_bind_ok_iff] at decoded
    obtain ⟨second, after, rfl, second_range, third, after, rfl, third_range, fourth, after, rfl,
      fourth_range, decoded⟩ := decoded
    cases decoded
    rw [ofNat_value (by omega)]
    dsimp only
    rw [if_neg (by omega), if_neg (by omega), if_neg (by omega)]
    rw [byte_eq (b := first) (by omega), byte_eq (b := second) (by omega),
      byte_eq (b := third) (by omega), byte_eq (b := fourth) (by omega)]
    exact ⟨rfl, width.symm⟩
  · -- the byte announces nothing
    simp [decodeChar, width] at decoded

theorem decodeChar_shorter {first : UInt8} {rest after : Bytes} {c : Char}
    (decoded : decodeChar (first :: rest) = .ok (c, after)) : after.length ≤ rest.length := by
  have lengths := congrArg List.length (decodeChar_sound decoded).1
  have some : 0 < (String.utf8EncodeChar c).length :=
    List.length_pos_iff.mpr String.utf8EncodeChar_ne_nil
  simp only [List.length_cons, List.length_append] at lengths
  omega

/-! ### The whole input -/

theorem encode_eq_nil_iff {cs : List Char} : encode cs = [] ↔ cs = [] := by
  cases cs with
  | nil => simp
  | cons c cs => simp

theorem decodeFrom_nil (fuel index : ℕ) : decodeFrom fuel index [] = .ok [] := by
  cases fuel with
  | zero => rfl
  | succ fuel => rfl

/-- One turn reads a character and leaves the rest to the turns after it. -/
theorem decodeFrom_cons_ok_iff {fuel index : ℕ} {first : UInt8} {rest : Bytes} {cs : List Char} :
    decodeFrom (fuel + 1) index (first :: rest) = .ok cs ↔
      ∃ c after ds, decodeChar (first :: rest) = .ok (c, after) ∧
        decodeFrom fuel (index + charWidth first) after = .ok ds ∧ cs = c :: ds := by
  simp only [decodeFrom]
  cases decodeChar (first :: rest) with
  | error errorLen => simp
  | ok read =>
    obtain ⟨c, after⟩ := read
    simp only [Except.ok.injEq, Prod.mk.injEq]
    constructor
    · intro returned
      cases remaining : decodeFrom fuel (index + charWidth first) after with
      | error e => simp [Except.map, remaining] at returned
      | ok ds =>
        simp only [Except.map, remaining, Except.ok.injEq] at returned
        exact ⟨c, after, ds, ⟨rfl, rfl⟩, remaining, returned.symm⟩
    · rintro ⟨_, _, ds, ⟨rfl, rfl⟩, remaining, rfl⟩
      simp [Except.map, remaining]

/-- Reading gives back exactly the characters whose encoding the bytes are. -/
theorem decodeFrom_ok_iff {fuel : ℕ} (index : ℕ) {bytes : Bytes} {cs : List Char}
    (enough : bytes.length ≤ fuel) :
    decodeFrom fuel index bytes = .ok cs ↔ bytes = encode cs := by
  -- by induction on the fuel, which every character read brings down with the bytes
  induction fuel generalizing index bytes cs with
  | zero =>
    obtain rfl : bytes = [] := List.length_eq_zero_iff.mp (by omega)
    rw [decodeFrom_nil, Except.ok.injEq, eq_comm, ← encode_eq_nil_iff, eq_comm]
  | succ fuel ih =>
    cases bytes with
    | nil => rw [decodeFrom_nil, Except.ok.injEq, eq_comm, ← encode_eq_nil_iff, eq_comm]
    | cons first rest =>
      simp only [List.length_cons] at enough
      rw [decodeFrom_cons_ok_iff]
      constructor
      · rintro ⟨c, after, ds, decoded, remaining, rfl⟩
        have shorter := decodeChar_shorter decoded
        rw [(decodeChar_sound decoded).1, encode_cons, (ih _ (by omega)).mp remaining]
      · intro encoded
        cases cs with
        | nil => cases encoded
        | cons c cs =>
          -- the first character is read for itself, whatever the others encode to
          have decoded := decodeChar_encode c (encode cs)
          rw [← encode_cons, ← encoded] at decoded
          have shorter := decodeChar_shorter decoded
          exact ⟨c, encode cs, cs, decoded, (ih _ (by omega)).mpr rfl, rfl⟩

/-- An error stands at the first place where no character can be read. -/
theorem decodeFrom_error {fuel index : ℕ} {bytes : Bytes} {e : Utf8Error}
    (enough : bytes.length ≤ fuel) (failed : decodeFrom fuel index bytes = .error e) :
    ∃ cs rest, bytes = encode cs ++ rest ∧ e.validUpTo = index + (encode cs).length ∧
      decodeChar rest = .error e.errorLen := by
  induction fuel generalizing index bytes with
  | zero => cases failed
  | succ fuel ih =>
    cases bytes with
    | nil => cases failed
    | cons first rest =>
      simp only [decodeFrom] at failed
      split at failed
      -- the first character is the broken one
      next errorLen broken =>
        cases failed
        exact ⟨[], first :: rest, rfl, rfl, broken⟩
      -- or a later one, and this one is its own encoding
      next c after decoded =>
        obtain ⟨shape, width⟩ := decodeChar_sound decoded
        have shorter := decodeChar_shorter decoded
        cases remaining : decodeFrom fuel (index + charWidth first) after with
        | ok ds =>
          rw [remaining] at failed
          cases failed
        | error e' =>
          rw [remaining] at failed
          cases failed
          simp only [List.length_cons] at enough
          obtain ⟨cs, tail, rfl, place, broken⟩ := ih (by omega) remaining
          refine ⟨c :: cs, tail, ?_, ?_, broken⟩
          · rw [shape, encode_cons, List.append_assoc]
          · rw [place, encode_cons, List.length_append]
            omega

theorem fromUtf8_ok_iff {bytes : Bytes} {cs : List Char} :
    fromUtf8 bytes = .ok cs ↔ bytes = encode cs :=
  decodeFrom_ok_iff 0 (Nat.le_refl _)

theorem fromUtf8_error {bytes : Bytes} {e : Utf8Error} (failed : fromUtf8 bytes = .error e) :
    ∃ cs rest, bytes = encode cs ++ rest ∧ e.validUpTo = (encode cs).length ∧
      decodeChar rest = .error e.errorLen := by
  obtain ⟨cs, rest, shape, place, broken⟩ := decodeFrom_error (Nat.le_refl _) failed
  exact ⟨cs, rest, shape, by omega, broken⟩

end Machine
