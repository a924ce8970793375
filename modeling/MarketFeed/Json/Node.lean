import MarketFeed.Json.Numeral
import MarketFeed.Json.StringPart

/-!
# Syntax trees

A JSON value as it is written (`Json.Node`): every blank, every digit and every escape has its place
in the tree, and so does text that breaks the grammar, so `Node.text` gives back the octets that
`Node.scan` has read.  `Node.isSound` holds of the trees without a break.
-/

namespace MarketFeed

namespace Json

/-- A value between blanks. -/
structure Spaced (α : Type) where
  before : Gap
  value : α
  after : Gap

/-- A member of an object: a key, the blanks on both sides of the colon unless it is missing, and a
value. -/
structure Entry (α : Type) where
  before : Gap
  key : List StringPart
  colon : Option (Gap × Gap)
  value : α
  after : Gap

/-- How a list of elements or members ends: closed, or cut short by text that cannot follow. -/
inductive Ending where
  | closed (gap : Gap)
  | cut (rest : List UInt8)
  deriving DecidableEq, Repr

/-- Whether the closing bracket or brace is there. -/
def Ending.isClosed : Ending → Bool
  | closed _ => true
  | cut _ => false

/-- The octets of an ending, given the closing bracket or brace. -/
def Ending.text (close : UInt8) : Ending → List UInt8
  | closed gap => gap ++ [close]
  | cut rest => rest

/-- A JSON value as it is written, or text where no value begins. -/
inductive Node where
  | null
  | bool (value : Bool)
  | number (numeral : Numeral)
  | string (body : List StringPart)
  | array (elements : List (Spaced Node)) (ending : Ending)
  | object (members : List (Entry Node)) (ending : Ending)
  | broken (rest : List UInt8)

namespace Node

/-- Whether a tree is null. -/
def isNull : Node → Bool
  | null => true
  | _ => false

/-- The octets of a word of ASCII letters. -/
def word (w : String) : List UInt8 := w.toList.map fun c => UInt8.ofNat c.toNat

/-! ### Text -/

mutual

/-- The octets of a tree. -/
def text : Node → List UInt8
  | null => word "null"
  | bool b => word (if b then "true" else "false")
  | number n => n.text
  | string body => StringPart.text body
  | array elements ending =>
    Octet.openBracket :: (elementsText elements).drop 1 ++ ending.text Octet.closeBracket
  | object members ending =>
    Octet.openBrace :: (membersText members).drop 1 ++ ending.text Octet.closeBrace
  | broken rest => rest

/-- The octets of elements, each with a comma before it. -/
def elementsText : List (Spaced Node) → List UInt8
  | [] => []
  | e :: es => Octet.comma :: elementText e ++ elementsText es

/-- The octets of an element. -/
def elementText : Spaced Node → List UInt8
  | ⟨before, value, after⟩ => before ++ value.text ++ after

/-- The octets of members, each with a comma before it. -/
def membersText : List (Entry Node) → List UInt8
  | [] => []
  | m :: ms => Octet.comma :: memberText m ++ membersText ms

/-- The octets of a member. -/
def memberText : Entry Node → List UInt8
  | ⟨before, key, colon, value, after⟩ =>
    before ++ StringPart.text key
      ++ (match colon with
          | none => []
          | some (left, right) => left ++ Octet.colon :: right)
      ++ value.text ++ after

end

/-! ### Soundness -/

mutual

/-- Whether a tree has no break. -/
def isSound : Node → Bool
  | array elements ending => elementsSound elements && ending.isClosed
  | object members ending => membersSound members && ending.isClosed
  | broken _ => false
  | _ => true

/-- Whether no element has a break. -/
def elementsSound : List (Spaced Node) → Bool
  | [] => true
  | e :: es => elementSound e && elementsSound es

/-- Whether an element has no break. -/
def elementSound : Spaced Node → Bool
  | ⟨_, value, _⟩ => value.isSound

/-- Whether no member has a break. -/
def membersSound : List (Entry Node) → Bool
  | [] => true
  | m :: ms => memberSound m && membersSound ms

/-- Whether a member has no break. -/
def memberSound : Entry Node → Bool
  | ⟨_, _, colon, value, _⟩ => colon.isSome && value.isSound

end

/-! ### Scanning -/

/-- What follows a word at the start of the octets. -/
def afterWord? (w : String) (s : List UInt8) : Option (List UInt8) :=
  if (word w).isPrefixOf s then some (s.drop (word w).length) else none

/-- The literal name at the start of the octets, or a break. -/
def scanName (s : List UInt8) : Node × List UInt8 :=
  match afterWord? "null" s with
  | some rest => (null, rest)
  | none =>
    match afterWord? "true" s with
    | some rest => (bool true, rest)
    | none =>
      match afterWord? "false" s with
      | some rest => (bool false, rest)
      | none => (broken s, [])

/-- The string, numeral or literal name at the start of the octets, or a break. -/
def scanLeaf : List UInt8 → Node × List UInt8
  | [] => (broken [], [])
  | b :: s =>
    if b = Octet.quote then
      match StringPart.scan? s with
      | some (body, rest) => (string body, rest)
      | none => (broken (b :: s), [])
    else if b = Octet.minus ∨ (Digit.ofOctet? b).isSome then
      match Numeral.scan? (b :: s) with
      | some (n, rest) => (number n, rest)
      | none => (broken (b :: s), [])
    else scanName (b :: s)

/-- The blanks around a colon at the start of the octets, and what follows them. -/
def scanColon (s : List UInt8) : Option (Gap × Gap) × List UInt8 :=
  match dropGap s with
  | [] => (none, s)
  | b :: rest =>
    if b = Octet.colon then (some (takeGap s, takeGap rest), dropGap rest) else (none, s)

mutual

/-- The tree at the start of the octets and what follows it.  The first argument bounds the work. -/
def scanWithin : Nat → List UInt8 → Node × List UInt8
  | 0, s => (broken s, [])
  | _ + 1, [] => (broken [], [])
  | bound + 1, b :: s =>
    if b = Octet.openBracket then
      let (elements, ending, rest) := scanElements bound s
      (array elements ending, rest)
    else if b = Octet.openBrace then
      let (members, ending, rest) := scanMembers bound s
      (object members ending, rest)
    else scanLeaf (b :: s)

/-- What stands between brackets, and what follows it. -/
def scanElements : Nat → List UInt8 → List (Spaced Node) × Ending × List UInt8
  | 0, s => ([], .cut s, [])
  | bound + 1, s =>
    match dropGap s with
    | [] => ([], .cut s, [])
    | b :: rest =>
      if b = Octet.closeBracket then ([], .closed (takeGap s), rest)
      else scanMoreElements bound s

/-- The elements up to the closing bracket, and what follows it. -/
def scanMoreElements : Nat → List UInt8 → List (Spaced Node) × Ending × List UInt8
  | 0, s => ([], .cut s, [])
  | bound + 1, s =>
    let (value, afterValue) := scanWithin bound (dropGap s)
    let element := ⟨takeGap s, value, takeGap afterValue⟩
    match dropGap afterValue with
    | [] => ([element], .cut [], [])
    | b :: rest =>
      if b = Octet.comma then
        match scanMoreElements bound rest with
        | ([], _, _) => ([element], .cut (b :: rest), [])
        | (elements, ending, rest) => (element :: elements, ending, rest)
      else if b = Octet.closeBracket then ([element], .closed [], rest)
      else ([element], .cut (b :: rest), [])

/-- What stands between braces, and what follows it. -/
def scanMembers : Nat → List UInt8 → List (Entry Node) × Ending × List UInt8
  | 0, s => ([], .cut s, [])
  | bound + 1, s =>
    match dropGap s with
    | [] => ([], .cut s, [])
    | b :: rest =>
      if b = Octet.closeBrace then ([], .closed (takeGap s), rest)
      else scanMoreMembers bound s

/-- The members up to the closing brace, and what follows it.  Where no key stands the list is cut
short before the comma and the blanks. -/
def scanMoreMembers : Nat → List UInt8 → List (Entry Node) × Ending × List UInt8
  | 0, s => ([], .cut s, [])
  | bound + 1, s =>
    match dropGap s with
    | [] => ([], .cut s, [])
    | quote :: afterQuote =>
      match if quote = Octet.quote then StringPart.scan? afterQuote else none with
      | none => ([], .cut s, [])
      | some (key, afterKey) =>
        let (colon, afterColon) := scanColon afterKey
        let (value, afterValue) :=
          if colon.isSome then scanWithin bound afterColon else (broken afterColon, [])
        let member := ⟨takeGap s, key, colon, value, takeGap afterValue⟩
        match dropGap afterValue with
        | [] => ([member], .cut [], [])
        | b :: rest =>
          if b = Octet.comma then
            match scanMoreMembers bound rest with
            | ([], _, _) => ([member], .cut (b :: rest), [])
            | (members, ending, rest) => (member :: members, ending, rest)
          else if b = Octet.closeBrace then ([member], .closed [], rest)
          else ([member], .cut (b :: rest), [])

end

/-- The tree at the start of the octets, and what follows it. -/
def scan (s : List UInt8) : Node × List UInt8 := scanWithin (3 * s.length + 3) s

/-! ### Writing -/

/-- The string literal of a text. -/
def ofString (s : String) : Node := string (StringPart.encode s)

/-- The numeral of a natural number. -/
def ofNat (n : Nat) : Node := number (Numeral.ofNat n)

/-- An array without blanks. -/
def ofList (values : List Node) : Node :=
  array (values.map fun v => ⟨[], v, []⟩) (.closed [])

/-- The member with a key and a value, without blanks. -/
def member (key : String) (value : Node) : Entry Node :=
  ⟨[], StringPart.encode key, some ([], []), value, []⟩

/-- An object without blanks. -/
def ofMembers (members : List (Entry Node)) : Node := object members (.closed [])

/-- An object of keys and values, without blanks. -/
def ofPairs (pairs : List (String × Node)) : Node :=
  ofMembers (pairs.map fun (key, value) => member key value)

/-- The value where there is one, and null otherwise. -/
def ofOption (value : Option Node) : Node := value.getD null

end Node

end Json

end MarketFeed
