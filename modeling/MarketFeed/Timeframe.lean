import MarketFeed.Json.Codec

/-!
# Timeframes

The span of time that a candle covers (`Timeframe`), independent of the codes that an exchange has
for it.
-/

namespace MarketFeed

/-- The span of time that a candle covers. -/
inductive Timeframe where
  | m1 | m3 | m5 | m15 | m30
  | h1 | h2 | h4 | h6 | h12
  | d1 | w1 | mo1
  deriving DecidableEq, Repr

namespace Timeframe

/-- All timeframes, the shortest first. -/
def all : List Timeframe := [m1, m3, m5, m15, m30, h1, h2, h4, h6, h12, d1, w1, mo1]

/-- The seconds in a timeframe; a month counts as thirty days. -/
def seconds : Timeframe → Nat
  | m1 => 60
  | m3 => 3 * 60
  | m5 => 5 * 60
  | m15 => 15 * 60
  | m30 => 30 * 60
  | h1 => 60 * 60
  | h2 => 2 * 60 * 60
  | h4 => 4 * 60 * 60
  | h6 => 6 * 60 * 60
  | h12 => 12 * 60 * 60
  | d1 => 24 * 60 * 60
  | w1 => 7 * 24 * 60 * 60
  | mo1 => 30 * 24 * 60 * 60

/-- The minutes in a timeframe. -/
def minutes (t : Timeframe) : Nat := t.seconds / 60

/-- The short name of a timeframe. -/
def text : Timeframe → String
  | m1 => "1m"
  | m3 => "3m"
  | m5 => "5m"
  | m15 => "15m"
  | m30 => "30m"
  | h1 => "1h"
  | h2 => "2h"
  | h4 => "4h"
  | h6 => "6h"
  | h12 => "12h"
  | d1 => "1d"
  | w1 => "1w"
  | mo1 => "1mo"

/-- The name of a timeframe in a diagnostic. -/
def inspect : Timeframe → String
  | m1 => "M1"
  | m3 => "M3"
  | m5 => "M5"
  | m15 => "M15"
  | m30 => "M30"
  | h1 => "H1"
  | h2 => "H2"
  | h4 => "H4"
  | h6 => "H6"
  | h12 => "H12"
  | d1 => "D1"
  | w1 => "W1"
  | mo1 => "Mo1"

/-- The timeframe with a short name. -/
def ofText? (s : String) : Option Timeframe := all.find? (·.text == s)

/-- Timeframes by their short names. -/
def codec : Json.Codec Timeframe := .choice (all.map fun t => (t.text, t)) text inspect

end Timeframe

end MarketFeed
