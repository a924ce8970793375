/-!
# Logs

What a part of the program reports while it works: events with a level, a message and named fields.
Where the events of two parts meet, an `Entry` tells whose an event is.
-/

namespace MarketFeed

namespace Log

/-- How much an event matters. -/
inductive Level where
  | trace
  | debug
  | info
  | warn
  | error
  deriving DecidableEq, Repr

/-- The value of a field. -/
inductive Value where
  | text (s : String)
  | count (n : Nat)
  deriving DecidableEq, Repr

/-- One report. -/
structure Event where
  level : Level
  message : String
  fields : List (String × Value)
  deriving DecidableEq, Repr

/-- Whose an event is, while a pump reads frames for a feed. -/
inductive Source where
  | feed
  | pump
  deriving DecidableEq, Repr

/-- An event and whose it is. -/
structure Entry where
  source : Source
  event : Event
  deriving DecidableEq, Repr

end Log

end MarketFeed
