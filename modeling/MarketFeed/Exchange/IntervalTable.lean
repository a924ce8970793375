import MarketFeed.Exchange.Event
import MarketFeed.Market.Data

/-!
# Interval codes

An `IntervalTable` pairs the interval codes of an exchange with timeframes.  Its entries are written
one after the other into two maps, one for either direction, where a later entry replaces what is
there under its code or its timeframe.  With a table the events of the exchange become market data
(`IntervalTable.marketData`), all that an event carries or nothing.
-/

namespace MarketFeed

/-- Writes a value under a key of a map, which is a list of keys with their values.  A key that is
there keeps its place. -/
def put {κ ν : Type} [BEq κ] (key : κ) (value : ν) : List (κ × ν) → List (κ × ν)
  | [] => [(key, value)]
  | entry :: map => if key == entry.1 then (key, value) :: map else entry :: put key value map

/-- Interval codes and the timeframes that they stand for. -/
structure IntervalTable where
  entries : List (String × Timeframe)
  deriving DecidableEq, Repr

namespace IntervalTable

/-- The interval codes in use. -/
def standard : IntervalTable where
  entries := [
    ("1", .m1),
    ("3", .m3),
    ("5", .m5),
    ("15", .m15),
    ("30", .m30),
    ("60", .h1),
    ("120", .h2),
    ("240", .h4),
    ("360", .h6),
    ("720", .h12),
    ("D", .d1),
    ("W", .w1),
    ("M", .mo1)]

/-- The two maps of a table. -/
structure Maps where
  timeframes : List (String × Timeframe) := []
  codes : List (Timeframe × String) := []

/-- Writes an entry into both maps. -/
def Maps.enter (maps : Maps) (entry : String × Timeframe) : Maps where
  timeframes := put entry.1 entry.2 maps.timeframes
  codes := put entry.2 entry.1 maps.codes

/-- The maps that the entries of a table fill. -/
def maps (table : IntervalTable) : Maps := table.entries.foldl Maps.enter {}

/-- The timeframe that a code stands for. -/
def timeframe? (table : IntervalTable) (code : String) : Option Timeframe :=
  table.maps.timeframes.lookup code

/-- The code of a timeframe. -/
def code? (table : IntervalTable) (timeframe : Timeframe) : Option String :=
  table.maps.codes.lookup timeframe

/-- The number of codes that stand for a timeframe. -/
def size (table : IntervalTable) : Nat := table.maps.timeframes.length

/-! ### Conversion -/

/-- The instant that a field of a candle stands for. -/
def instant (field : String) (millis : UInt64) : Except FeedError Instant :=
  match Instant.ofMillis? millis.toNat with
  | some t => .ok t
  | none => .error (.timestamp field millis)

/-- The bar for a candle. -/
def bar (table : IntervalTable) (symbol : String) (c : Candle) : Except FeedError Bar := do
  let some timeframe := table.timeframe? c.interval | throw (.unknownInterval c.interval c)
  let startTime ← instant "start" c.startTime
  let endTime ← instant "end" c.endTime
  let lastTrade ← instant "timestamp" c.lastTrade
  return {
    symbol, timeframe, startTime, endTime, lastTrade
    opening := c.opening
    closing := c.closing
    high := c.high
    low := c.low
    volume := c.volume
    quoteVolume := c.turnover
    closed := c.confirmed }

/-- The update for an order book push. -/
def update (p : BookPush) : BookUpdate :=
  let book : OrderBook := ⟨p.symbol, p.bids, p.asks⟩
  let update :=
    if p.replaces then BookUpdate.snapshot book p.updateId else BookUpdate.delta book p.updateId
  update.withSequence p.sequence

/-- The market data that an event carries; those of an account and acknowledgements carry none. -/
def marketData (table : IntervalTable) : Event → Except FeedError (List MarketData)
  | .candles p => p.candles.mapM fun c => (table.bar p.symbol c).map .bar
  | .book p => .ok [.book (update p)]
  | _ => .ok []

end IntervalTable

end MarketFeed
