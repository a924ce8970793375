import MarketFeed.Decimal.Reading
import MarketFeed.Json.Node

/-!
# Faults

Why a text does not decode as a value of the expected kind (`Json.Fault`), and the wording of each
fault (`Fault.message`).  A fault of the grammar has one wording wherever it stands.
-/

namespace MarketFeed

namespace Json

/-- What stands where another kind of value is expected. -/
inductive Found where
  | null
  | bool (value : Bool)
  | number (value : Number)
  | string (value : String)
  | sequence
  | map
  deriving DecidableEq, Repr

/-- What a tree is at its root, unless it breaks there. -/
def Found.ofNode? : Node → Option Found
  | .null => some null
  | .bool b => some (bool b)
  | .number n => n.number?.map number
  | .string body => (StringPart.decode? body).map string
  | .array .. => some sequence
  | .object .. => some map
  | .broken _ => none

/-- A text between grave accents. -/
def ticked (s : String) : String := "\x60" ++ s ++ "\x60"

/-- The wording of what was found. -/
def Found.text : Found → String
  | null => "null"
  | bool b => "boolean " ++ ticked (if b then "true" else "false")
  | number (.real x) => "floating point " ++ ticked x.text
  | number n => "integer " ++ ticked n.text
  | string s => "string " ++ Text.quoted s
  | sequence => "sequence"
  | map => "map"

/-- Why a text is no integer of 64 bits. -/
inductive IntegerFault where
  | empty
  | invalidDigit
  | tooLarge
  deriving DecidableEq, Repr

/-- The wording of an integer fault. -/
def IntegerFault.message : IntegerFault → String
  | empty => "cannot parse integer from empty string"
  | invalidDigit => "invalid digit found in string"
  | tooLarge => "number too large to fit in target type"

/-- Why a text does not decode. -/
inductive Fault where
  | grammar
  | missingField (key : String)
  | duplicateField (key : String)
  | invalidType (found : Found) (expected : String)
  | invalidValue (found : Found) (expected : String)
  | unknownVariant (name : String) (known : List String)
  | invalidLength (length : Nat) (expected : String)
  | integerText (text : String) (cause : IntegerFault)
  | notInteger (value : String)
  | decimalText (cause : Decimal.Fault)
  | notDecimal
  deriving DecidableEq, Repr

/-- The wording of a list of known names. -/
def knownNames : List String → String
  | [a, b] => "expected " ++ ticked a ++ " or " ++ ticked b
  | names => "expected one of " ++ String.intercalate ", " (names.map ticked)

/-- The wording of a fault. -/
def Fault.message : Fault → String
  | grammar => "json syntax error"
  | missingField key => "missing field " ++ ticked key
  | duplicateField key => "duplicate field " ++ ticked key
  | invalidType found expected => "invalid type: " ++ found.text ++ ", expected " ++ expected
  | invalidValue found expected => "invalid value: " ++ found.text ++ ", expected " ++ expected
  | unknownVariant name known => "unknown variant " ++ ticked name ++ ", " ++ knownNames known
  | invalidLength n expected => "invalid length " ++ Text.ofNat n ++ ", expected " ++ expected
  | integerText s cause => "invalid integer string " ++ Text.quoted s ++ ": " ++ cause.message
  | notInteger value => "expected integer or integer string, got " ++ value
  | decimalText cause => cause.message
  | notDecimal => "invalid decimal value"

/-- The fault of a tree that is not of the expected kind. -/
def mismatch (node : Node) (expected : String) : Fault :=
  match Found.ofNode? node with
  | some found => .invalidType found expected
  | none => .grammar

end Json

end MarketFeed
