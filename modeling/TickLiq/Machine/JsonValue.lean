import Mathlib.Algebra.Order.Field.Rat
import TickLiq.Machine.Decimal

/-!
# JSON values

`serde_json::Value` and what is read of it. An integer and a float are different numbers: only
the first is an `i64`.
-/
namespace Machine

inductive JsonValue where
  | null
  | boolean (value : Bool)
  | integer (value : ℤ)
  | float (value : ℚ)
  | string (value : String)
  | array (elements : List JsonValue)
  | object (fields : List (String × JsonValue))

namespace JsonValue

def get (json : JsonValue) (name : String) : Option JsonValue :=
  match json with
  | .object fields => fields.lookup name
  | _ => none

def asStr : JsonValue → Option String
  | .string value => some value
  | _ => none

def asI64 : JsonValue → Option ℤ
  | .integer value => if -2 ^ 63 ≤ value ∧ value < 2 ^ 63 then some value else none
  | _ => none

def asF64 : JsonValue → Option ℚ
  | .integer value => some value
  | .float value => some value
  | _ => none

/-- An index has no sign and no leading zero. -/
def parseIndex (token : String) : Option ℕ :=
  match token.toList with
  | '+' :: _ => none
  | '0' :: _ :: _ => none
  | digits => parseUnsigned (2 ^ 64) digits

/-- One token of a JSON pointer. -/
def child (json : JsonValue) (token : String) : Option JsonValue :=
  match json with
  | .object fields => fields.lookup token
  | .array elements => (parseIndex token).bind fun i => elements[i]?
  | _ => none

/-- `pointer("/a/b/..")`, for tokens without escapes. -/
def pointer (json : JsonValue) : List String → Option JsonValue
  | [] => some json
  | token :: tokens => (json.child token).bind fun value => value.pointer tokens

end JsonValue

end Machine
