import MarketFeed.Json.Value

/-!
# Codecs

A `Json.Codec` says how values of a type are read from a syntax tree, written as one, shown in a
diagnostic, and when two of them count as the same.  Here are the codecs of single values and those
built from them: lists (`Codec.list`), optional values (`Codec.optional`), names from an open list
(`Codec.named`) and from a closed one (`Codec.choice`).  Reading follows the text: the first problem
in it is the fault.
-/

namespace MarketFeed

namespace Json

/-- How values of a type are read, written, shown and compared.  Reading takes the number of levels
of arrays and objects that the tree may have. -/
structure Codec (α : Type) where
  read : Nat → Node → Except Fault α
  write : α → Node
  inspect : α → String
  same : α → α → Bool
  /-- Whether a tree stands for no value, where values may be missing. -/
  isNull : Nat → Node → Bool := fun _ node => node.isNull

/-- Reads a value from the start of the octets; what follows it is not looked at. -/
def decodeFirst {α : Type} (codec : Codec α) (s : List UInt8) : Except Fault α :=
  codec.read allLevels (Node.scan (dropGap s)).1

/-- Reads the one value that the octets hold. -/
def decode {α : Type} (codec : Codec α) (s : List UInt8) : Except Fault α :=
  decodeWith (codec.read allLevels) s

/-- The text of a value, without blanks. -/
def encode {α : Type} (codec : Codec α) (value : α) : String := textOf (codec.write value).text

/-- The grammar fault of a list that is cut short. -/
def Ending.check : Ending → Except Fault Unit
  | .closed _ => .ok ()
  | .cut _ => .error .grammar

/-- Whether the text of a value decodes as the same value. -/
def isStable {α : Type} (codec : Codec α) (value : α) : Bool :=
  match decode codec (octets (encode codec value)) with
  | .ok read => codec.same value read
  | .error _ => false

namespace Codec

/-! ### Single values -/

/-- Truth values. -/
def flag : Codec Bool where
  read _ node :=
    match node with
    | .bool b => .ok b
    | node => .error (mismatch node "a boolean")
  write := .bool
  inspect b := if b then "true" else "false"
  same := (· == ·)

/-- The text of a string, with the given wording for other values. -/
def readText (expected : String) (node : Node) : Except Fault String :=
  match node with
  | .string body =>
    match StringPart.decode? body with
    | some s => .ok s
    | none => .error .grammar
  | node => .error (mismatch node expected)

/-- Texts. -/
def text : Codec String where
  read _ := readText "a string"
  write := Node.ofString
  inspect := Text.quoted
  same := (· == ·)

/-- Reads the rest of an integer of 64 bits from its digits. -/
def readWord : Nat → List Char → Except IntegerFault Nat
  | n, [] => .ok n
  | n, c :: cs =>
    match Digit.ofChar? c with
    | none => .error .invalidDigit
    | some d =>
      if n * 10 + d.val < UInt64.size then readWord (n * 10 + d.val) cs
      else .error .tooLarge

/-- Reads an integer of 64 bits from its digits, which a plus sign may precede. -/
def readSignedWord : List Char → Except IntegerFault Nat
  | [] => .error .empty
  | ['+'] => .error .invalidDigit
  | '+' :: cs => readWord 0 cs
  | cs => readWord 0 cs

/-- Reads an integer of 64 bits from a text with blanks around it. -/
def readWordText (s : String) : Except Fault UInt64 :=
  match readSignedWord (Text.trim s.toList) with
  | .ok n => .ok (UInt64.ofNat n)
  | .error cause => .error (.integerText s cause)

/-- The integer of 64 bits that a value stands for: a number, or a text that spells one. -/
def wordOf : Value → Except Fault UInt64
  | .number (.natural n) => .ok n
  | .string s => readWordText s
  | value => .error (.notInteger value.text)

/-- Integers of 64 bits, read from numbers and from texts.  Whatever stands for null is no value. -/
def word : Codec UInt64 where
  read levels node := Value.ofNode levels node >>= wordOf
  write n := Node.ofNat n.toNat
  inspect n := Text.ofNat n.toNat
  same := (· == ·)
  isNull levels node :=
    match Value.ofNode levels node with
    | .ok .null => true
    | _ => false

/-- The natural number below a bound that a number is, with the given wording for others. -/
def naturalOf (bound : Nat) (expected : String) : Number → Except Fault Nat
  | .natural n =>
    if n.toNat < bound then .ok n.toNat
    else .error (.invalidValue (.number (.natural n)) expected)
  | .negative n => .error (.invalidValue (.number (.negative n)) expected)
  | .real x => .error (.invalidType (.number (.real x)) expected)

/-- Reads a natural number below a bound, with the given wording for other values. -/
def readNatural (bound : Nat) (expected : String) (node : Node) : Except Fault Nat :=
  match node with
  | .number numeral =>
    match numeral.number? with
    | none => .error .grammar
    | some n => naturalOf bound expected n
  | node => .error (mismatch node expected)

/-- Integers of eight bits. -/
def octet : Codec UInt8 where
  read _ node := (readNatural UInt8.size "u8" node).map UInt8.ofNat
  write n := Node.ofNat n.toNat
  inspect n := Text.ofNat n.toNat
  same := (· == ·)

/-- Sizes, which have 64 bits. -/
def size : Codec UInt64 where
  read _ node := (readNatural UInt64.size "usize" node).map UInt64.ofNat
  write n := Node.ofNat n.toNat
  inspect n := Text.ofNat n.toNat
  same := (· == ·)

/-- The wording of what a strict decimal expects. -/
def decimalExpected : String := "a Decimal type representing a fixed-point number"

/-- Decimals, read from texts only. -/
def decimal : Codec Decimal where
  read _ node := do
    let s ← readText decimalExpected node
    match Decimal.read s with
    | .ok d => .ok d
    | .error _ => .error (.invalidValue (.string s) decimalExpected)
  write d := Node.ofString d.text
  inspect := Decimal.text
  same := Decimal.worthSame

/-- Reads a decimal from a text, with the fault of the decimal. -/
def readDecimalText (s : String) : Except Fault Decimal :=
  match Decimal.read s with
  | .ok d => .ok d
  | .error cause => .error (.decimalText cause)

/-- The decimal that a value stands for: a number, or a text that spells one.  Null and a blank text
stand for zero. -/
def looseDecimalOf : Value → Except Fault Decimal
  | .null => .ok Decimal.zero
  | .string s => if (Text.trim s.toList).isEmpty then .ok Decimal.zero else readDecimalText s
  | .number n => readDecimalText n.text
  | _ => .error .notDecimal

/-- Decimals, read from texts and numbers; null and a blank text are zero. -/
def looseDecimal : Codec Decimal where
  read levels node := Value.ofNode levels node >>= looseDecimalOf
  write d := Node.ofString d.text
  inspect := Decimal.text
  same := Decimal.worthSame

/-- Whole values, kept as the text in which they are written. -/
def captured : Codec String where
  read _ node :=
    match node.isSound, Utf8.decode? node.text with
    | true, some cs => .ok (String.ofList cs)
    | _, _ => .error .grammar
  write s := (Node.scan (octets s)).1
  inspect := Text.quoted
  same := (· == ·)

/-! ### Composition -/

/-- Lists of values. -/
def list {α : Type} (codec : Codec α) : Codec (List α) where
  read levels node :=
    match node, levels with
    | .array .., 0 => .error .grammar
    | .array elements ending, levels + 1 => do
      let values ← elements.mapM fun e => codec.read levels e.value
      ending.check
      return values
    | node, _ => .error (mismatch node "a sequence")
  write values := Node.ofList (values.map codec.write)
  inspect values := "[" ++ String.intercalate ", " (values.map codec.inspect) ++ "]"
  same xs ys := xs.length == ys.length && (xs.zip ys).all fun (x, y) => codec.same x y

/-- Values that null may stand in for. -/
def optional {α : Type} (codec : Codec α) : Codec (Option α) where
  read levels node :=
    if codec.isNull levels node then .ok none else (codec.read levels node).map some
  write value := Node.ofOption (value.map codec.write)
  inspect
    | none => "None"
    | some value => "Some(" ++ codec.inspect value ++ ")"
  same
    | none, none => true
    | some x, some y => codec.same x y
    | _, _ => false

/-- Values with a text of their own, of which every text is one. -/
def named {α : Type} [BEq α] (ofText : String → α) (toText inspect : α → String) :
    Codec α where
  read _ node := (readText "a string" node).map ofText
  write value := Node.ofString (toText value)
  inspect := inspect
  same := (· == ·)

/-- The entry of a table of names, or the fault of a name that is not in it. -/
def lookUp {α : Type} (table : List (String × α)) (name : String) : Except Fault α :=
  match table.lookup name with
  | some value => .ok value
  | none => .error (.unknownVariant name (table.map (·.1)))

/-- Reads null. -/
def readUnit : Node → Except Fault Unit
  | .null => .ok ()
  | node => .error (mismatch node "unit")

/-- Reads a name from a closed list: a string, or an object whose one member has the name as its key
and null as its value. -/
def readChoice {α : Type} (table : List (String × α)) : Nat → Node → Except Fault α
  | _, .string body => do
    let name ← readText "a string" (.string body)
    lookUp table name
  | _ + 1, .object [] (.cut rest) =>
    .error (mismatch (Node.scan (dropGap rest)).1 "variant identifier")
  | _ + 1, .object (m :: ms) ending => do
    let name ← readText "a string" (.string m.key)
    let value ← lookUp table name
    readUnit m.value
    ending.check
    if ms.isEmpty then return value else throw .grammar
  | _, _ => .error .grammar

/-- Names from a closed list. -/
def choice {α : Type} [BEq α] (table : List (String × α)) (toText : α → String)
    (inspect : α → String) : Codec α where
  read := readChoice table
  write value := Node.ofString (toText value)
  inspect := inspect
  same := (· == ·)

end Codec

end Json

end MarketFeed
