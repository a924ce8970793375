import MarketFeed.Exchange.IntervalTable
import MarketFeed.Log

/-!
# Feeds

A `Feed` is what the rest of the program needs to know of an exchange: its name, the topic of a
subscription, and how a frame is read.  `IntervalTable.feed` is the feed of the exchange with a
table of interval codes; it reports each acknowledgement that it passes on.
-/

namespace MarketFeed

/-- The outcome of reading a frame, and what was reported on the way. -/
structure Reading (α : Type) where
  result : Except FeedError α
  log : List Log.Event

/-- An exchange whose frames are events of a given type. -/
structure Feed (α : Type) where
  name : String
  topic : Subscription → Except FeedError String
  read : List UInt8 → Reading α

/-- The address for public data. -/
def publicEndpoint : String := "wss://stream.bybit.com/v5/public/linear"

/-- The address for the data of an account. -/
def privateEndpoint : String := "wss://stream.bybit.com/v5/private"

/-- The address on which a stream is to be had. -/
def Subscription.endpoint (s : Subscription) : String :=
  if s.isPrivate then privateEndpoint else publicEndpoint

/-- The report of an acknowledgement that is passed on. -/
def Acknowledgement.report (a : Acknowledgement) : Log.Event where
  level := .trace
  message := "op acknowledged"
  fields := [("op", .text a.op.text), ("conn_id", .text a.connId)]

namespace Event

/-- Reads a frame: an acknowledgement has to be accepted, the payload of a push has to be of the
shape that its topic calls for. -/
def ofFrame (raw : List UInt8) : Except FeedError Event := do
  match ← Envelope.decode raw with
  | .acknowledgement a => do
    a.check
    return .acknowledgement a
  | .push p => p.event

/-- What is reported of an event. -/
def reports : Event → List Log.Event
  | acknowledgement a => [a.report]
  | _ => []

/-- Reads a frame and reports an acknowledgement. -/
def read (raw : List UInt8) : Reading Event :=
  match ofFrame raw with
  | .ok event => ⟨.ok event, event.reports⟩
  | .error e => ⟨.error e, []⟩

end Event

namespace IntervalTable

/-- The topic of a subscription. -/
def topic (table : IntervalTable) : Subscription → Except FeedError String
  | .candles symbol timeframe =>
    match table.code? timeframe with
    | some code => .ok (Topic.join [TopicType.kline.text, code, symbol])
    | none => .error (.unsupportedInterval timeframe)
  | .orderBook symbol depth =>
    .ok (Topic.join [TopicType.orderBook.text, Text.ofNat depth.toNat, symbol])
  | .orders => .ok TopicType.order.text
  | .wallet => .ok TopicType.wallet.text

/-- The feed of the exchange. -/
def feed (table : IntervalTable) : Feed Event where
  name := "Bybit"
  topic := table.topic
  read := Event.read

end IntervalTable

end MarketFeed
