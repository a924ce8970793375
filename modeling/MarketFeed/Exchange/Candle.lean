import MarketFeed.Exchange.Book

/-!
# Candles of the exchange

A push on a candle topic (`CandlePush`) carries one or more candles of a symbol.  A candle that is
not confirmed is still open, and a later one of the same start replaces it.
-/

namespace MarketFeed

/-- The trades of a stretch of time. -/
structure Candle where
  startTime : UInt64
  endTime : UInt64
  interval : String
  opening : Decimal
  closing : Decimal
  high : Decimal
  low : Decimal
  volume : Decimal
  turnover : Decimal
  confirmed : Bool
  lastTrade : UInt64
  deriving DecidableEq

namespace Candle

open Json in
/-- The fields of a candle. -/
def record : Json.Record Candle where
  name := "Candle"
  fields := [
    .required "start_time" "start" .word,
    .required "end_time" "end" .word,
    .required "interval" "interval" .text,
    .required "open" "open" .decimal,
    .required "close" "close" .decimal,
    .required "high" "high" .decimal,
    .required "low" "low" .decimal,
    .required "volume" "volume" .decimal,
    .required "turnover" "turnover" .decimal,
    .required "confirmed" "confirm" .flag,
    .required "last_trade_timestamp" "timestamp" .word]
  ofValues := fun (startTime, endTime, interval, opening, closing, high, low, volume, turnover,
      confirmed, lastTrade, ()) =>
    { startTime, endTime, interval, opening, closing, high, low, volume, turnover, confirmed,
      lastTrade }
  toValues c := (c.startTime, c.endTime, c.interval, c.opening, c.closing, c.high, c.low, c.volume,
    c.turnover, c.confirmed, c.lastTrade, ())

/-- Candles as objects. -/
def codec : Json.Codec Candle := record.codec

end Candle

/-- A candle push of one symbol. -/
structure CandlePush where
  symbol : String
  kind : PushKind
  candles : List Candle
  deriving DecidableEq

/-- A push as an object. -/
def CandlePush.write (p : CandlePush) : Json.Node :=
  Json.Node.ofPairs [
    ("symbol", Json.Node.ofString p.symbol),
    ("kind", PushKind.codec.write p.kind),
    ("candles", (Json.Codec.list Candle.codec).write p.candles)]

end MarketFeed
