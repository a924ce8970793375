import MarketFeed.Json.Fault

/-!
# Values

What a syntax tree stands for (`Json.Value`).  A tree is first kept as it is, with a mark where it
breaks off or cannot be kept (`Buffered.ofNode`), and what is kept is then read in the order of the
text (`Buffered.readWith`).  An object has its keys in order and the last value of each, unless it
begins with `rawKey`: then it stands for the value that the string under that key spells, which is
read like any other text.  `Value.text` writes a value without blanks.
-/

namespace MarketFeed

namespace Json

/-! ### Kept trees -/

/-- A tree that is kept for later.  An object keeps all its members in the order in which they are
written. -/
inductive Buffered where
  | null
  | bool (value : Bool)
  | number (value : Number)
  | string (value : String)
  | array (elements : List Buffered)
  | object (members : List (String × Buffered))
  | broken

namespace Buffered

mutual

/-- Keeps a tree, and breaks off where it breaks, where a string is no text or a number is out of
range, and where arrays and objects are more than `levels` deep. -/
def ofNode : Nat → Node → Buffered
  | _, .null => null
  | _, .bool b => bool b
  | _, .number n => (n.number?.map number).getD broken
  | _, .string body => ((StringPart.decode? body).map string).getD broken
  | 0, .array .. => broken
  | levels + 1, .array elements ending =>
    array (ofElements levels elements ++ if ending.isClosed then [] else [broken])
  | 0, .object .. => broken
  | levels + 1, .object members ending =>
    object (ofMembers levels members ++ if ending.isClosed then [] else [("", broken)])
  | _, .broken _ => broken

/-- Keeps elements. -/
def ofElements : Nat → List (Spaced Node) → List Buffered
  | _, [] => []
  | levels, e :: es => ofElement levels e :: ofElements levels es

/-- Keeps an element. -/
def ofElement : Nat → Spaced Node → Buffered
  | levels, ⟨_, value, _⟩ => ofNode levels value

/-- Keeps members. -/
def ofMembers : Nat → List (Entry Node) → List (String × Buffered)
  | _, [] => []
  | levels, m :: ms => ofMember levels m :: ofMembers levels ms

/-- Keeps a member. -/
def ofMember : Nat → Entry Node → String × Buffered
  | levels, ⟨_, key, colon, value, _⟩ =>
    match StringPart.decode? key with
    | none => ("", broken)
    | some key => (key, if colon.isSome then ofNode levels value else broken)

end

mutual

/-- Whether nothing breaks off. -/
def isWhole : Buffered → Bool
  | array elements => allWhole elements
  | object members => membersWhole members
  | broken => false
  | _ => true

/-- Whether no element breaks off. -/
def allWhole : List Buffered → Bool
  | [] => true
  | v :: vs => v.isWhole && allWhole vs

/-- Whether no member breaks off. -/
def membersWhole : List (String × Buffered) → Bool
  | [] => true
  | m :: ms => memberWhole m && membersWhole ms

/-- Whether a member does not break off. -/
def memberWhole : String × Buffered → Bool
  | (_, v) => v.isWhole

end

/-- Keeps a tree, unless it breaks off. -/
def ofNode? (levels : Nat) (t : Node) : Option Buffered :=
  if (ofNode levels t).isWhole then some (ofNode levels t) else none

/-- What a kept tree is at its root, unless it breaks off there. -/
def found? : Buffered → Option Found
  | null => some .null
  | bool b => some (.bool b)
  | number n => some (.number n)
  | string s => some (.string s)
  | array _ => some .sequence
  | object _ => some .map
  | broken => none

/-- The fault of a kept tree that is not of the expected kind. -/
def mismatch (b : Buffered) (expected : String) : Fault :=
  match b.found? with
  | some found => .invalidType found expected
  | none => .grammar

/-- The text of a kept string, with the given wording for other values. -/
def readText (expected : String) : Buffered → Except Fault String
  | string s => .ok s
  | b => .error (b.mismatch expected)

end Buffered

/-! ### Values -/

/-- What a syntax tree stands for. -/
inductive Value where
  | null
  | bool (value : Bool)
  | number (value : Number)
  | string (value : String)
  | array (elements : List Value)
  | object (members : List (String × Value))

namespace Value

/-- Puts a member into members in the order of their keys, in place of one with its key. -/
def insertMember (key : String) (value : Value) : List (String × Value) → List (String × Value)
  | [] => [(key, value)]
  | (k, v) :: members =>
    if key < k then (key, value) :: (k, v) :: members
    else if key = k then (key, value) :: members
    else (k, v) :: insertMember key value members

/-- The object with the given members, of which a later one replaces an earlier one. -/
def ofMembers (members : List (String × Value)) : Value :=
  object (members.foldl (fun sorted (key, value) => insertMember key value sorted) [])

end Value

/-- The key of an object that stands for the value which the string under it spells. -/
def rawKey : String := "$serde_json::private::RawValue"

namespace Buffered

/-- What stands under the raw key where an object begins with it, and how many members follow. -/
def raw? : List (String × Buffered) → Option (Buffered × Nat)
  | (key, v) :: members => if key = rawKey then some (v, members.length) else none
  | [] => none

/-- The value that is spelled under the raw key.  No member may follow. -/
def readRaw (spelled : String → Except Fault Value) (surplus : Nat → Fault) (v : Buffered)
    (others : Nat) : Except Fault Value := do
  let value ← spelled (← v.readText "raw value")
  if others = 0 then return value else throw (surplus (others + 1))

mutual

/-- The value of what is kept, given the values that strings spell and the fault of an object with
members behind the raw key. -/
def readWith (spelled : String → Except Fault Value) (surplus : Nat → Fault) :
    Buffered → Except Fault Value
  | null => .ok .null
  | bool b => .ok (.bool b)
  | number n => .ok (.number n)
  | string s => .ok (.string s)
  | array elements => (readElements spelled surplus elements).map .array
  | object members =>
    match raw? members with
    | some (v, others) => readRaw spelled surplus v others
    | none => (readMembers spelled surplus members).map .ofMembers
  | broken => .error .grammar

/-- The values of kept elements. -/
def readElements (spelled : String → Except Fault Value) (surplus : Nat → Fault) :
    List Buffered → Except Fault (List Value)
  | [] => .ok []
  | v :: vs => do
    let value ← readWith spelled surplus v
    let values ← readElements spelled surplus vs
    return value :: values

/-- The keys and values of kept members. -/
def readMembers (spelled : String → Except Fault Value) (surplus : Nat → Fault) :
    List (String × Buffered) → Except Fault (List (String × Value))
  | [] => .ok []
  | m :: ms => do
    let member ← readMember spelled surplus m
    let members ← readMembers spelled surplus ms
    return member :: members

/-- The key and the value of a kept member. -/
def readMember (spelled : String → Except Fault Value) (surplus : Nat → Fault) :
    String × Buffered → Except Fault (String × Value)
  | (key, v) => (readWith spelled surplus v).map (key, ·)

end

end Buffered

/-! ### Whole texts -/

/-- The levels of arrays and objects that a whole text may have. -/
def allLevels : Nat := 127

/-- Reads the one value that the octets hold, given how it is read from its tree. -/
def decodeWith {α : Type} (read : Node → Except Fault α) (s : List UInt8) : Except Fault α :=
  let (node, rest) := Node.scan (dropGap s)
  match read node with
  | .error fault => .error fault
  | .ok value => if rest.all Octet.isBlank then .ok value else .error .grammar

namespace Value

/-- The value that a text spells.  The first argument bounds how often a text may stand in a text
under the raw key. -/
def spelledWithin : Nat → String → Except Fault Value
  | 0, _ => .error .grammar
  | bound + 1, s =>
    decodeWith
      (fun node =>
        (Buffered.ofNode allLevels node).readWith (spelledWithin bound) fun _ => .grammar)
      (octets s)

/-- The value that a text spells.  A text is shorter than the one in which it stands, so its length
bounds how often that can be. -/
def spelled (s : String) : Except Fault Value := spelledWithin ((octets s).length + 1) s

/-- What a tree stands for, if arrays and objects are at most `levels` deep in it. -/
def ofNode (levels : Nat) (t : Node) : Except Fault Value :=
  (Buffered.ofNode levels t).readWith spelled fun _ => .grammar

/-! ### Text -/

/-- The string literal of a text. -/
def literal (s : String) : String := textOf (StringPart.text (StringPart.encode s))

mutual

/-- A value without blanks. -/
def text : Value → String
  | null => "null"
  | bool b => if b then "true" else "false"
  | number n => n.text
  | string s => literal s
  | array elements => "[" ++ String.intercalate "," (elementTexts elements) ++ "]"
  | object members => "\x7b" ++ String.intercalate "," (memberTexts members) ++ "\x7d"

/-- The texts of elements. -/
def elementTexts : List Value → List String
  | [] => []
  | v :: vs => v.text :: elementTexts vs

/-- The texts of members. -/
def memberTexts : List (String × Value) → List String
  | [] => []
  | m :: ms => memberText m :: memberTexts ms

/-- The text of a member. -/
def memberText : String × Value → String
  | (key, value) => literal key ++ ":" ++ value.text

end

end Value

end Json

end MarketFeed
