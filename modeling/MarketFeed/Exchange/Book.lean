import MarketFeed.Json.Record

/-!
# Order books of the exchange

A push on an order book topic (`BookPush`) carries levels, in the order in which the exchange lists
them.  A `PriceLevel` is a price and the volume on offer there, which the exchange writes as an
array of two texts (`PriceLevel.codec`).  A push replaces the book that a consumer holds, or amends
it (`BookPush.replaces`).
-/

namespace MarketFeed

/-! ### Price levels -/

/-- A price and the volume on offer there; a volume of zero in an amendment removes the level. -/
structure PriceLevel where
  price : Decimal
  volume : Decimal
  deriving DecidableEq

namespace PriceLevel

/-- The two elements of a level. -/
def fields : List Json.Field := [
  .required "price" "price" .decimal,
  .required "volume" "volume" .decimal]

/-- The wording of what a level expects. -/
def expected : String := "tuple struct BookLevel"

/-- Reads a level from an array of exactly two elements. -/
def read : Nat → Json.Node → Except Json.Fault PriceLevel
  | 0, .array .. => .error .grammar
  | levels + 1, .array elements ending =>
    (Json.Values.ofElements levels (Json.tooShort expected fields.length) ending fields 0
      elements).map fun (price, volume, ()) => ⟨price, volume⟩
  | _, node => .error (Json.mismatch node expected)

/-- Levels as arrays of two texts. -/
def codec : Json.Codec PriceLevel where
  read := read
  write level := Json.Node.ofList [Json.Codec.decimal.write level.price,
    Json.Codec.decimal.write level.volume]
  inspect level := "BookLevel(" ++ level.price.text ++ ", " ++ level.volume.text ++ ")"
  same a b := a.price.worthSame b.price && a.volume.worthSame b.volume

end PriceLevel

/-! ### Pushes -/

/-- Whether a push replaces what a consumer holds or amends it. -/
inductive PushKind where
  | snapshot
  | delta
  deriving DecidableEq, Repr

namespace PushKind

/-- The text of a push kind. -/
def text : PushKind → String
  | snapshot => "snapshot"
  | delta => "delta"

/-- A push kind in a diagnostic. -/
def inspect : PushKind → String
  | snapshot => "Snapshot"
  | delta => "Delta"

/-- Push kinds by their texts. -/
def codec : Json.Codec PushKind :=
  .choice ([snapshot, delta].map fun kind => (kind.text, kind)) text inspect

end PushKind

/-- The payload of a push on an order book topic. -/
structure BookPayload where
  symbol : String
  bids : List PriceLevel
  asks : List PriceLevel
  updateId : UInt64
  sequence : UInt64
  deriving DecidableEq

namespace BookPayload

open Json in
/-- The fields of a book payload. -/
def record : Json.Record BookPayload where
  name := "BookPayload"
  fields := [
    .required "symbol" "s" .text,
    .required "bids" "b" (.list PriceLevel.codec),
    .required "asks" "a" (.list PriceLevel.codec),
    .required "update_id" "u" .word,
    .required "sequence_id" "seq" .word]
  ofValues := fun (symbol, bids, asks, updateId, sequence, ()) =>
    { symbol, bids, asks, updateId, sequence }
  toValues p := (p.symbol, p.bids, p.asks, p.updateId, p.sequence, ())

/-- Book payloads as objects. -/
def codec : Json.Codec BookPayload := record.codec

end BookPayload

/-- An order book push of one symbol. -/
structure BookPush extends BookPayload where
  kind : PushKind
  deriving DecidableEq

namespace BookPush

/-- The update number one follows a restart of the exchange and stands for a whole book. -/
def isRestart (p : BookPush) : Bool := p.updateId == 1

/-- Whether a consumer has to replace the book it holds. -/
def replaces (p : BookPush) : Bool := p.kind == .snapshot || p.isRestart

/-- Whether the push was made before another one with the given sequence number. -/
def isBefore (p : BookPush) (sequence : UInt64) : Bool := decide (p.sequence < sequence)

/-- A push as an object. -/
def write (p : BookPush) : Json.Node :=
  let levels := (Json.Codec.list PriceLevel.codec).write
  Json.Node.ofPairs [
    ("symbol", Json.Node.ofString p.symbol),
    ("bids", levels p.bids),
    ("asks", levels p.asks),
    ("update_id", Json.Node.ofNat p.updateId.toNat),
    ("sequence_id", Json.Node.ofNat p.sequence.toNat),
    ("kind", PushKind.codec.write p.kind)]

end BookPush

end MarketFeed
