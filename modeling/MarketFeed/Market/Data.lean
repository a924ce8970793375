import MarketFeed.Calendar
import MarketFeed.Exchange.Book
import MarketFeed.Notice.Attachment
import MarketFeed.Timeframe

/-!
# Market data

Market data in a form that does not depend on the exchange (`MarketData`): a `Bar` of trades, or an
update of an order book (`BookUpdate`).  Each can be written as an object and summed up in an
attachment.  A `Subscription` says what a connection asks for, independent of the topics of an
exchange.
-/

namespace MarketFeed

open Json (Node)

/-! ### Subscriptions -/

/-- A stream of data that a connection can subscribe to. -/
inductive Subscription where
  | candles (symbol : String) (timeframe : Timeframe)
  | orderBook (symbol : String) (depth : UInt32)
  | orders
  | wallet
  deriving DecidableEq, Repr

namespace Subscription

/-- The symbol of a market stream; those of an account have none. -/
def symbol : Subscription → Option String
  | candles symbol _ => some symbol
  | orderBook symbol _ => some symbol
  | orders | wallet => none

/-- Whether the stream is that of an account, which needs an authenticated connection. -/
def isPrivate : Subscription → Bool
  | orders | wallet => true
  | _ => false

end Subscription

/-! ### Order books -/

/-- A level as an object. -/
def PriceLevel.write (level : PriceLevel) : Node :=
  Node.ofPairs [
    ("price", Node.ofString level.price.text),
    ("volume", Node.ofString level.volume.text)]

/-- The two sides of an order book, in the order of the exchange. -/
structure OrderBook where
  symbol : String
  bids : List PriceLevel
  asks : List PriceLevel
  deriving DecidableEq

namespace OrderBook

/-- The first bid, which is the best of a whole book. -/
def bestBid? (b : OrderBook) : Option PriceLevel := b.bids.head?

/-- The first ask, which is the best of a whole book. -/
def bestAsk? (b : OrderBook) : Option PriceLevel := b.asks.head?

/-- A book as an object. -/
def write (b : OrderBook) : Node :=
  Node.ofPairs [
    ("symbol", Node.ofString b.symbol),
    ("bids", Node.ofList (b.bids.map PriceLevel.write)),
    ("asks", Node.ofList (b.asks.map PriceLevel.write))]

/-- A level in an attachment. -/
def levelText : Option PriceLevel → String
  | none => "-"
  | some level => level.volume.text ++ " @ " ++ level.price.text

/-- The best levels of a book and the number of levels on each side. -/
def attachment (b : OrderBook) : Attachment where
  title := b.symbol ++ " order book"
  fields := [
    ⟨"Best bid", levelText b.bestBid?, true⟩,
    ⟨"Best ask", levelText b.bestAsk?, true⟩,
    ⟨"Bid levels", Text.ofNat b.bids.length, true⟩,
    ⟨"Ask levels", Text.ofNat b.asks.length, true⟩]

end OrderBook

/-- A book that replaces or amends the one that a consumer holds. -/
structure BookUpdate where
  book : OrderBook
  isSnapshot : Bool
  updateId : UInt64
  sequence : Option UInt64
  deriving DecidableEq

namespace BookUpdate

/-- An update that replaces the book. -/
def snapshot (book : OrderBook) (updateId : UInt64) : BookUpdate := ⟨book, true, updateId, none⟩

/-- An update that amends the book. -/
def delta (book : OrderBook) (updateId : UInt64) : BookUpdate := ⟨book, false, updateId, none⟩

/-- The update with a sequence number. -/
def withSequence (u : BookUpdate) (sequence : UInt64) : BookUpdate :=
  { u with sequence := some sequence }

/-- An update as an object. -/
def write (u : BookUpdate) : Node :=
  Node.ofPairs [
    ("book", u.book.write),
    ("is_snapshot", .bool u.isSnapshot),
    ("update_id", Node.ofNat u.updateId.toNat),
    ("sequence", Node.ofOption (u.sequence.map fun n => Node.ofNat n.toNat))]

end BookUpdate

/-! ### Bars -/

/-- The trades of a symbol in a timeframe.  A bar that is not closed may still change. -/
structure Bar where
  symbol : String
  timeframe : Timeframe
  startTime : Instant
  endTime : Instant
  opening : Decimal
  closing : Decimal
  high : Decimal
  low : Decimal
  volume : Decimal
  quoteVolume : Decimal
  closed : Bool
  lastTrade : Instant
  deriving DecidableEq

namespace Bar

/-- Whether the price has risen. -/
def isBullish (b : Bar) : Bool := b.opening.worthLess b.closing

/-- The highest price less the lowest, unless it is too large. -/
def range? (b : Bar) : Option Decimal := b.high.sub? b.low

/-- A bar as an object. -/
def write (b : Bar) : Node :=
  Node.ofPairs [
    ("symbol", Node.ofString b.symbol),
    ("interval", Node.ofString b.timeframe.text),
    ("start_time", Node.ofString b.startTime.text),
    ("end_time", Node.ofString b.endTime.text),
    ("open", Node.ofString b.opening.text),
    ("close", Node.ofString b.closing.text),
    ("high", Node.ofString b.high.text),
    ("low", Node.ofString b.low.text),
    ("volume", Node.ofString b.volume.text),
    ("quote_volume", Node.ofString b.quoteVolume.text),
    ("closed", .bool b.closed),
    ("last_trade_time", Node.ofString b.lastTrade.text)]

/-- The prices of a bar, with a colour for a rise and one for anything else. -/
def attachment (b : Bar) : Attachment where
  title := b.symbol ++ " " ++ b.timeframe.text
  color := some (if b.isBullish then "good" else "danger")
  fields := [
    ⟨"Open", b.opening.text, true⟩,
    ⟨"Close", b.closing.text, true⟩,
    ⟨"High", b.high.text, true⟩,
    ⟨"Low", b.low.text, true⟩,
    ⟨"Volume", b.volume.text, true⟩,
    ⟨"Start", b.startTime.minuteText, true⟩]

end Bar

/-! ### Either -/

/-- A bar or an update of an order book. -/
inductive MarketData where
  | bar (b : Bar)
  | book (u : BookUpdate)
  deriving DecidableEq

namespace MarketData

/-- The symbol of market data. -/
def symbol : MarketData → String
  | bar b => b.symbol
  | book u => u.book.symbol

/-- The bar that the data is. -/
def bar? : MarketData → Option Bar
  | bar b => some b
  | book _ => none

/-- The update of an order book that the data is. -/
def book? : MarketData → Option BookUpdate
  | bar _ => none
  | book u => some u

/-- Market data as an object of one member, whose key says what it is. -/
def write : MarketData → Node
  | bar b => Node.ofPairs [("Candle", b.write)]
  | book u => Node.ofPairs [("OrderBook", u.write)]

/-- The attachment for market data. -/
def attachment : MarketData → Attachment
  | bar b => b.attachment
  | book u => u.book.attachment

end MarketData

end MarketFeed
