import MarketFeed.Json.Record

/-!
# Records among the members of another object

The members of a record may be scattered among those of another object.  Which of them are its own
is not known before the whole object has been read, so its members are kept in their order
(`Json.Buffered`), and the fields of the record (`Json.InlineField`) are read from what was kept
(`InlineRecord.replay`).  An `InlineRecord` is a record in its own right as well
(`InlineRecord.record`).
-/

namespace MarketFeed

namespace Json

/-- The fault of a kept object with members behind the raw key. -/
def surplusMember (members : Nat) : Fault := .invalidLength members "1 element in map"

/-- What a tree stands for that has been kept. -/
def Buffered.value (b : Buffered) : Except Fault Value := b.readWith Value.spelled surplusMember

/-! ### Codecs -/

/-- A codec that also reads values that have been kept. -/
structure InlineCodec (α : Type) extends Codec α where
  replay : Buffered → Except Fault α

namespace InlineCodec

/-- Texts. -/
def text : InlineCodec String := { Codec.text with replay := Buffered.readText "a string" }

/-- Values with a text of their own, of which every text is one. -/
def named {α : Type} [BEq α] (ofText : String → α) (toText inspect : α → String) :
    InlineCodec α :=
  { Codec.named ofText toText inspect with replay := fun b => (b.readText "a string").map ofText }

/-- Truth values. -/
def flag : InlineCodec Bool :=
  { Codec.flag with
    replay := fun b =>
      match b with
      | .bool b => .ok b
      | b => .error (b.mismatch "a boolean") }

/-- Integers of eight bits. -/
def octet : InlineCodec UInt8 :=
  { Codec.octet with
    replay := fun b =>
      match b with
      | .number n => (Codec.naturalOf UInt8.size "u8" n).map UInt8.ofNat
      | b => .error (b.mismatch "u8") }

/-- Integers of 64 bits, read from numbers and from texts. -/
def word : InlineCodec UInt64 := { Codec.word with replay := fun b => b.value >>= Codec.wordOf }

/-- Decimals, read from texts and numbers; null and a blank text are zero. -/
def looseDecimal : InlineCodec Decimal :=
  { Codec.looseDecimal with replay := fun b => b.value >>= Codec.looseDecimalOf }

end InlineCodec

/-! ### Fields -/

/-- A field of a record that may stand inside another object. -/
structure InlineField where
  {Carrier : Type}
  label : String
  key : String
  codec : InlineCodec Carrier
  absence : Absence Carrier

namespace InlineField

/-- A field that has to be there. -/
def required {α : Type} (label key : String) (codec : InlineCodec α) : InlineField :=
  { label, key, codec, absence := .required }

/-- A field with a value to stand in for it. -/
def withDefault {α : Type} (label key : String) (codec : InlineCodec α) (value : α) :
    InlineField :=
  { label, key, codec, absence := .anywhere value }

/-- The field of a decimal that counts as zero where it is absent. -/
def amount (label key : String) : InlineField :=
  withDefault label key .looseDecimal Decimal.zero

/-- The field as one of a record that stands alone. -/
def field (f : InlineField) : Field :=
  { label := f.label, key := f.key, codec := f.codec.toCodec, absence := f.absence }

end InlineField

/-! ### Members -/

/-- Reads a kept member into the slot of its field; one of no field is passed over. -/
def Slots.replay (key : String) (value : Buffered) : (fields : List InlineField) →
    Slots (fields.map InlineField.field) → Except Fault (Slots (fields.map InlineField.field))
  | [], () => .ok ()
  | f :: fields, (slot, slots) =>
    if f.field.isNamed key then
      if slot.isSome then .error (.duplicateField f.key)
      else (f.codec.replay value).map fun v => (some v, slots)
    else (replay key value fields slots).map fun slots => (slot, slots)

/-- Reads kept members into the slots of their fields. -/
def Slots.replayAll (fields : List InlineField) :
    Slots (fields.map InlineField.field) → List (String × Buffered) →
      Except Fault (Slots (fields.map InlineField.field))
  | slots, [] => .ok slots
  | slots, (key, value) :: kept => do
    let slots ← Slots.replay key value fields slots
    replayAll fields slots kept

/-! ### Records -/

/-- A record that may stand inside another object. -/
structure InlineRecord (α : Type) where
  name : String
  fields : List InlineField
  ofValues : Values (fields.map InlineField.field) → α
  toValues : α → Values (fields.map InlineField.field)

namespace InlineRecord

variable {α : Type} (r : InlineRecord α)

/-- The record that stands alone. -/
def record : Record α where
  name := r.name
  fields := r.fields.map InlineField.field
  ofValues := r.ofValues
  toValues := r.toValues

/-- Reads a record from the members of an object that have been kept. -/
def replay (kept : List (String × Buffered)) : Except Fault α := do
  let slots ← (Slots.empty (r.fields.map InlineField.field)).replayAll r.fields kept
  slots.values.map r.ofValues

end InlineRecord

end Json

end MarketFeed
