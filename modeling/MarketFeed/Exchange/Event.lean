import MarketFeed.Exchange.Envelope
import MarketFeed.Exchange.Order
import MarketFeed.Exchange.Wallet

/-!
# Events

What a frame says once it is wholly decoded (`Event`).  The type of a push's topic chooses how its
payload is read (`Push.event`); a candle push also takes its symbol from the topic, before the
payload is looked at.
-/

namespace MarketFeed

/-- A decoded frame. -/
inductive Event where
  | acknowledgement (a : Acknowledgement)
  | book (p : BookPush)
  | candles (p : CandlePush)
  | orders (reports : List OrderReport)
  | wallets (wallets : List Wallet)
  deriving DecidableEq

namespace Event

/-- The symbol of an event; those of an account have none. -/
def symbol : Event → Option String
  | book p => some p.symbol
  | candles p => some p.symbol
  | _ => none

/-- The acknowledgement that the event is. -/
def acknowledgement? : Event → Option Acknowledgement
  | acknowledgement a => some a
  | _ => none

/-- The order book push that the event is. -/
def book? : Event → Option BookPush
  | book p => some p
  | _ => none

/-- The candle push that the event is. -/
def candles? : Event → Option CandlePush
  | candles p => some p
  | _ => none

/-- The order reports that the event is. -/
def orders? : Event → Option (List OrderReport)
  | orders reports => some reports
  | _ => none

/-- The wallets that the event is. -/
def wallets? : Event → Option (List Wallet)
  | wallets ws => some ws
  | _ => none

/-- The content of an event. -/
def write : Event → Json.Node
  | acknowledgement a => Acknowledgement.codec.write a
  | book p => p.write
  | candles p => p.write
  | orders reports => (Json.Codec.list OrderReport.codec).write reports
  | wallets ws => (Json.Codec.list Wallet.codec).write ws

end Event

namespace Push

/-- The type of the topic. -/
def topicType (p : Push) : TopicType := Topic.type p.topic

/-- The symbol of the topic. -/
def symbol (p : Push) : Except FeedError String :=
  match Topic.symbol? p.topic with
  | some symbol => .ok symbol
  | none => .error (.topicFormat p.topic)

/-- Reads the payload, which is that of a topic of the given type. -/
def read {α : Type} (p : Push) (target : TopicType) (codec : Json.Codec α) :
    Except FeedError α :=
  (Json.decode codec (octets p.payload)).mapError fun fault => .payload target p.payload fault

/-- Reads the payload as an order book push. -/
def book (p : Push) : Except FeedError BookPush := do
  let payload ← p.read .orderBook BookPayload.codec
  return { toBookPayload := payload, kind := p.kind }

/-- Reads the payload as a candle push, which has at least one candle. -/
def candles (p : Push) : Except FeedError CandlePush := do
  let symbol ← p.symbol
  let candles ← p.read .kline (.list Candle.codec)
  if candles.isEmpty then
    throw (.payload .kline p.payload (.invalidLength 0 "at least one candle"))
  return { symbol, kind := p.kind, candles }

/-- Reads the payload as order reports. -/
def orders (p : Push) : Except FeedError (List OrderReport) :=
  p.read .order (.list OrderReport.codec)

/-- Reads the payload as wallets. -/
def wallets (p : Push) : Except FeedError (List Wallet) := p.read .wallet (.list Wallet.codec)

/-- Reads the payload as the type of the topic says. -/
def event (p : Push) : Except FeedError Event :=
  match p.topicType with
  | .orderBook => p.book.map .book
  | .kline => p.candles.map .candles
  | .order => p.orders.map .orders
  | .wallet => p.wallets.map .wallets
  | .unknown _ => .error (.unsupportedTopic p.topic)

end Push

end MarketFeed
