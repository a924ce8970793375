import MarketFeed.Json.Codec

/-!
# Records

A record is a table of fields (`Json.Field`), each with its key, its codec and the rule for its
absence.  `Record.codec` reads a record from an object, whose members may come in any order and
among others, or from an array with the values of the fields in their order; it writes an object
with the fields in their order.
-/

namespace MarketFeed

namespace Json

/-- What the absence of a field means. -/
inductive Absence (α : Type) where
  /-- The field has to be there. -/
  | required
  /-- In an object the value stands in; an array has to have the field. -/
  | inObject (value : α)
  /-- The value stands in. -/
  | anywhere (value : α)

/-- The value of a field that an object does not have. -/
def Absence.object? {α : Type} : Absence α → Option α
  | required => none
  | inObject value => some value
  | anywhere value => some value

/-- The value of a field that an array does not have. -/
def Absence.array? {α : Type} : Absence α → Option α
  | anywhere value => some value
  | _ => none

/-- A field of a record. -/
structure Field where
  {Carrier : Type}
  /-- The name of the field in a diagnostic. -/
  label : String
  /-- The key of the field in an object. -/
  key : String
  codec : Codec Carrier
  absence : Absence Carrier
  /-- A second key for the field. -/
  alias? : Option String := none
  /-- Whether a value is left out of the written object. -/
  isOmitted : Carrier → Bool := fun _ => false

namespace Field

/-- A field that has to be there. -/
def required {α : Type} (label key : String) (codec : Codec α) : Field :=
  { label, key, codec, absence := .required }

/-- A field with a value to stand in for it. -/
def withDefault {α : Type} (label key : String) (codec : Codec α) (value : α) : Field :=
  { label, key, codec, absence := .anywhere value }

/-- The field of a decimal that counts as zero where it is absent. -/
def amount (label key : String) : Field := withDefault label key Codec.looseDecimal Decimal.zero

/-- Whether a key names the field. -/
def isNamed (field : Field) (key : String) : Bool :=
  key == field.key || field.alias? == some key

end Field

/-- The values of fields. -/
def Values : List Field → Type
  | [] => Unit
  | field :: fields => field.Carrier × Values fields

/-- The values of fields so far. -/
def Slots : List Field → Type
  | [] => Unit
  | field :: fields => Option field.Carrier × Slots fields

/-! ### Objects -/

/-- The slots before any member is read. -/
def Slots.empty : (fields : List Field) → Slots fields
  | [] => ()
  | _ :: fields => (none, empty fields)

/-- Reads a member into the slot of its field; one of no field has to be sound. -/
def Slots.put (levels : Nat) (key : String) (value : Node) :
    (fields : List Field) → Slots fields → Except Fault (Slots fields)
  | [], () => if value.isSound then .ok () else .error .grammar
  | field :: fields, (slot, slots) =>
    if field.isNamed key then
      if slot.isSome then .error (.duplicateField field.key)
      else (field.codec.read levels value).map fun v => (some v, slots)
    else (put levels key value fields slots).map fun slots => (slot, slots)

/-- Reads members into the slots of their fields. -/
def Slots.putAll (levels : Nat) (fields : List Field) :
    Slots fields → List (Entry Node) → Except Fault (Slots fields)
  | slots, [] => .ok slots
  | slots, m :: ms => do
    let key ← Codec.readText "a string" (.string m.key)
    let slots ← slots.put levels key m.value
    putAll levels fields slots ms

/-- The values in the slots and of the absent fields. -/
def Slots.values : (fields : List Field) → Slots fields → Except Fault (Values fields)
  | [], () => .ok ()
  | field :: fields, (slot, slots) =>
    match slot.or field.absence.object? with
    | none => .error (.missingField field.key)
    | some value => (values fields slots).map fun values => (value, values)

/-- Reads the members of an object. -/
def Values.ofMembers (levels : Nat) (fields : List Field) (members : List (Entry Node))
    (ending : Ending) : Except Fault (Values fields) := do
  let slots ← (Slots.empty fields).putAll levels fields members
  ending.check
  slots.values fields

/-! ### Arrays -/

/-- The fault of an array with too few elements. -/
def tooShort (what : String) (fields length : Nat) : Fault :=
  .invalidLength length (what ++ " with " ++ Text.ofNat fields ++ " elements")

/-- The values of fields that an array does not have, the first of which has the given position. -/
def Values.absent (tooShort : Nat → Fault) :
    (fields : List Field) → Nat → Except Fault (Values fields)
  | [], _ => .ok ()
  | field :: fields, position =>
    match field.absence.array? with
    | none => .error (tooShort position)
    | some value => (absent tooShort fields (position + 1)).map fun values => (value, values)

/-- Reads the elements of an array, the first of which has the given position. -/
def Values.ofElements (levels : Nat) (tooShort : Nat → Fault) (ending : Ending) :
    (fields : List Field) → Nat → List (Spaced Node) → Except Fault (Values fields)
  | [], _, [] => ending.check.map fun () => ()
  | [], _, _ :: _ => .error .grammar
  | field :: fields, position, [] => do
    ending.check
    absent tooShort (field :: fields) position
  | field :: fields, position, e :: es => do
    let value ← field.codec.read levels e.value
    let values ← ofElements levels tooShort ending fields (position + 1) es
    return (value, values)

/-! ### Writing and comparing -/

/-- The members for values, in the order of their fields. -/
def Values.members : (fields : List Field) → Values fields → List (Entry Node)
  | [], () => []
  | field :: fields, (value, values) =>
    if field.isOmitted value then members fields values
    else Node.member field.key (field.codec.write value) :: members fields values

/-- The labelled diagnostics of values. -/
def Values.inspect : (fields : List Field) → Values fields → List String
  | [], () => []
  | field :: fields, (value, values) =>
    (field.label ++ ": " ++ field.codec.inspect value) :: inspect fields values

/-- Whether values are the same, field by field. -/
def Values.same : (fields : List Field) → Values fields → Values fields → Bool
  | [], (), () => true
  | field :: fields, (x, xs), (y, ys) => field.codec.same x y && same fields xs ys

/-- The diagnostic of a record. -/
def inspectRecord (name : String) (fields : List String) : String :=
  name ++ " \x7b " ++ String.intercalate ", " fields ++ " \x7d"

/-! ### Records -/

/-- A type whose values are made of the values of fields. -/
structure Record (α : Type) where
  name : String
  fields : List Field
  ofValues : Values fields → α
  toValues : α → Values fields

namespace Record

variable {α : Type} (record : Record α)

/-- The wording of what a record expects. -/
def expected : String := "struct " ++ record.name

/-- Reads a record from an object or an array. -/
def read (levels : Nat) (node : Node) : Except Fault α :=
  match node, levels with
  | .array .., 0 => .error .grammar
  | .object .., 0 => .error .grammar
  | .array elements ending, levels + 1 =>
    (Values.ofElements levels (tooShort record.expected record.fields.length) ending record.fields 0
      elements).map record.ofValues
  | .object members ending, levels + 1 =>
    (Values.ofMembers levels record.fields members ending).map record.ofValues
  | node, _ => .error (mismatch node record.expected)

/-- The members of the object that a record is written as. -/
def members (value : α) : List (Entry Node) := (record.toValues value).members record.fields

/-- The codec of a record. -/
def codec : Codec α where
  read := record.read
  write value := Node.ofMembers (record.members value)
  inspect value := inspectRecord record.name ((record.toValues value).inspect record.fields)
  same x y := (record.toValues x).same record.fields (record.toValues y)

end Record

end Json

end MarketFeed
