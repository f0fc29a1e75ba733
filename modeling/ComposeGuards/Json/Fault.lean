import ComposeGuards.Decimal.Layout
import ComposeGuards.Text.Quoted

/-! # Why a JSON text is refused

A text is cut off, malformed, or well-formed so far but of another shape than the reader expects.
Reading stops at the first fault in text order.
-/
namespace ComposeGuards.Json

/-- A JSON number: an integer of at most 64 bits, or a double. -/
inductive Number
  | natural (n : Nat)
  | negative (i : Int)
  | real (x : Float)

/-- What stands where something else was expected. -/
inductive Found
  | null
  | boolean (b : Bool)
  | number (n : Number)
  | text (s : String)
  | sequence
  | map

/-- How a well-formed text departs from the expected shape. -/
inductive Mismatch
  | wrongType (found : Found) (expected : String)
  | wrongValue (value : Int) (expected : String)
  | wrongLength (length : Nat) (expected : String)
  | unknownVariant (name : String) (expected : String)
  | duplicateField (name : String)
  | missingField (name : String)

inductive Fault
  | cutOff
  | malformed
  | mismatch (m : Mismatch)

def Found.describe : Found → String
  | null => "null"
  | boolean b => "boolean `" ++ toString b ++ "`"
  | number (.natural n) => "integer `" ++ toString n ++ "`"
  | number (.negative i) => "integer `" ++ toString i ++ "`"
  | number (.real x) => "floating point `" ++ Decimal.text x ++ "`"
  | text s => "string " ++ Text.quoted s
  | sequence => "sequence"
  | map => "map"

def Mismatch.message : Mismatch → String
  | wrongType found expected => "invalid type: " ++ found.describe ++ ", expected " ++ expected
  | wrongValue value expected =>
    "invalid value: integer `" ++ toString value ++ "`, expected " ++ expected
  | wrongLength length expected =>
    "invalid length " ++ toString length ++ ", expected " ++ expected
  | unknownVariant name expected => "unknown variant `" ++ name ++ "`, expected " ++ expected
  | duplicateField name => "duplicate field `" ++ name ++ "`"
  | missingField name => "missing field `" ++ name ++ "`"

end ComposeGuards.Json
