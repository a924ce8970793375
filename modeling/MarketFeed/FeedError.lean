import MarketFeed.Exchange.Acknowledgement
import MarketFeed.Exchange.Candle
import MarketFeed.Timeframe
import MarketFeed.Topic

/-!
# Errors of a feed

Why a frame does not become an event, or an event no market data (`FeedError`).  Each error keeps
the input that is to blame: the frame, the payload or the topic (`FeedError.rawInput`), the
acknowledgement, or the candle.
-/

namespace MarketFeed

/-- Why a frame is neither an acknowledgement nor a push. -/
inductive Malformation where
  | json (fault : Json.Fault)
  | noTopic
  | noData
  | noTimestamp
  | noType
  | mixed
  | neither
  deriving DecidableEq, Repr

/-- The wording of a malformation. -/
def Malformation.message : Malformation → String
  | json fault => fault.message
  | noTopic => "topic frame without topic"
  | noData => "topic frame without data"
  | noTimestamp => "topic frame without timestamp"
  | noType => "topic frame without type"
  | mixed => "frame carries both op and topic fields"
  | neither => "frame carries neither op nor topic fields"

/-- Why decoding or conversion fails. -/
inductive FeedError where
  /-- A frame that is neither an acknowledgement nor a push. -/
  | malformed (cause : Malformation) (raw : String)
  /-- An acknowledgement of an operation that is not known. -/
  | unknownOperation (acknowledgement : Acknowledgement)
  /-- An acknowledgement that the exchange has not accepted the operation. -/
  | notAccepted (acknowledgement : Acknowledgement)
  /-- A topic that does not have three segments. -/
  | topicFormat (topic : String)
  /-- A topic of a type that is not known. -/
  | unsupportedTopic (topic : String)
  /-- A payload that is not of the shape that its topic calls for. -/
  | payload (target : TopicType) (raw : String) (fault : Json.Fault)
  /-- A candle with an interval code that stands for no timeframe. -/
  | unknownInterval (code : String) (candle : Candle)
  /-- A timeframe that has no interval code. -/
  | unsupportedInterval (timeframe : Timeframe)
  /-- A number of milliseconds that stands for no instant. -/
  | timestamp (field : String) (millis : UInt64)
  deriving DecidableEq

namespace FeedError

/-- The wording of an error. -/
def message : FeedError → String
  | malformed cause raw => "malformed envelope (" ++ cause.message ++ "): " ++ raw
  | unknownOperation a => "unexpected op type: " ++ Acknowledgement.codec.inspect a
  | notAccepted a => "unexpected response result: " ++ Acknowledgement.codec.inspect a
  | topicFormat topic => "unexpected topic: " ++ topic
  | unsupportedTopic topic => "unsupported topic type: " ++ topic
  | payload target _ fault => "failed to decode " ++ target.text ++ " payload: " ++ fault.message
  | unknownInterval code candle =>
    "unexpected kline interval " ++ Text.quoted code ++ ": " ++ Candle.codec.inspect candle
  | unsupportedInterval t => "timeframe " ++ t.text ++ " has no exchange interval code"
  | timestamp field millis =>
    field ++ " timestamp out of range: " ++ Text.ofNat millis.toNat

/-- Whether the error comes from an acknowledgement. -/
def isOperational : FeedError → Bool
  | unknownOperation _ | notAccepted _ => true
  | _ => false

/-- The text from the wire that is to blame. -/
def rawInput : FeedError → Option String
  | malformed _ raw => some raw
  | payload _ raw _ => some raw
  | topicFormat topic => some topic
  | unsupportedTopic topic => some topic
  | _ => none

end FeedError

/-- Passes an acknowledgement that the exchange has accepted. -/
def Acknowledgement.check (a : Acknowledgement) : Except FeedError Unit :=
  match a.op with
  | .unknown _ => .error (.unknownOperation a)
  | _ => if a.isAccepted then .ok () else .error (.notAccepted a)

end MarketFeed
