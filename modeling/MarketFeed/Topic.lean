/-!
# Topics

A topic is a list of segments with points between them, such as `orderbook.50.BTCUSDT`.  The first
segment is its `TopicType`; a topic of three segments has the instrument's symbol as its last.
`Topic.join` and `Topic.segments` go between a topic and its parts.
-/

namespace MarketFeed

/-- The kind of data that a topic stands for. -/
inductive TopicType where
  | orderBook
  | wallet
  | order
  | kline
  | unknown (raw : String)
  deriving DecidableEq, Repr

namespace TopicType

/-- The topic type with a given text. -/
def ofText (s : String) : TopicType :=
  if s = "orderbook" then orderBook
  else if s = "wallet" then wallet
  else if s = "order" then order
  else if s = "kline" then kline
  else unknown s

/-- The text of a topic type. -/
def text : TopicType → String
  | orderBook => "orderbook"
  | wallet => "wallet"
  | order => "order"
  | kline => "kline"
  | unknown raw => raw

/-- Whether the type is one of those that carry data we know. -/
def isKnown : TopicType → Bool
  | unknown _ => false
  | _ => true

end TopicType

namespace Topic

/-- The character between two segments. -/
def separator : Char := '.'

/-- The stretches between separators, of which there is always one more than separators. -/
def split : List Char → List (List Char)
  | [] => [[]]
  | c :: cs =>
    if c = separator then [] :: split cs
    else
      match split cs with
      | [] => [[c]]
      | s :: ss => (c :: s) :: ss

/-- The segments of a topic. -/
def segments (topic : String) : List String := (split topic.toList).map String.ofList

/-- The topic with the given parts. -/
def join (parts : List String) : String := String.intercalate "." parts

/-- The type of a topic. -/
def type (topic : String) : TopicType := TopicType.ofText ((segments topic).headD "")

/-- The symbol of a topic of three segments. -/
def symbol? (topic : String) : Option String :=
  match segments topic with
  | [_, _, symbol] => some symbol
  | _ => none

end Topic

end MarketFeed
