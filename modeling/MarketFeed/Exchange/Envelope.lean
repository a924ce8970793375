import MarketFeed.FeedError

/-!
# Frames of the exchange

A frame is an object whose fields make it an acknowledgement or a push on a topic
(`Envelope.ofFields`); one that has fields of both, or of neither, is malformed.  `Envelope.decode`
reads a frame from its octets.  The payload of a push stays text until its topic is looked at.
-/

namespace MarketFeed

/-- Data that the exchange pushes on a topic. -/
structure Push where
  topic : String
  kind : PushKind
  /-- When the exchange made the data, in milliseconds from the start of 1970. -/
  timestamp : UInt64
  payload : String
  deriving DecidableEq, Repr

/-- A frame of the exchange. -/
inductive Envelope where
  | acknowledgement (a : Acknowledgement)
  | push (p : Push)
  deriving DecidableEq, Repr

/-- The fields that a frame may have. -/
structure FrameFields where
  success : Option Bool
  retMsg : Option String
  reqId : Option String
  connId : Option String
  op : Option Operation
  args : Option (List String)
  topic : Option String
  kind : Option PushKind
  timestamp : Option UInt64
  data : Option String

namespace FrameFields

open Json

/-- A field that may be absent from an object or null. -/
def maybe {α : Type} (key : String) (codec : Codec α) : Field :=
  { label := key, key, codec := codec.optional, absence := .inObject none }

/-- The fields of a frame.  Private topics have another key for the time. -/
def record : Record FrameFields where
  name := "WireFrame"
  fields := [
    maybe "success" .flag,
    maybe "ret_msg" .text,
    maybe "req_id" .text,
    maybe "conn_id" .text,
    maybe "op" Operation.codec,
    maybe "args" (.list .text),
    maybe "topic" .text,
    maybe "type" PushKind.codec,
    { maybe "ts" .word with absence := .anywhere none, alias? := some "creationTime" },
    maybe "data" .captured]
  ofValues := fun (success, retMsg, reqId, connId, op, args, topic, kind, timestamp, data, ()) =>
    { success, retMsg, reqId, connId, op, args, topic, kind, timestamp, data }
  toValues f := (f.success, f.retMsg, f.reqId, f.connId, f.op, f.args, f.topic, f.kind, f.timestamp,
    f.data, ())

/-- Whether a field of an acknowledgement is there. -/
def isOperational (f : FrameFields) : Bool :=
  f.success.isSome || f.retMsg.isSome || f.reqId.isSome || f.connId.isSome || f.op.isSome
    || f.args.isSome

/-- Whether a field of a push is there. -/
def isTopical (f : FrameFields) : Bool :=
  f.topic.isSome || f.kind.isSome || f.timestamp.isSome || f.data.isSome

/-- The acknowledgement that the fields make up. -/
def acknowledgement (f : FrameFields) : Acknowledgement where
  op := f.op.getD (.unknown "")
  success := f.success.getD false
  retMsg := f.retMsg.getD ""
  connId := f.connId.getD ""
  reqId := f.reqId
  args := f.args.getD []

/-- The kind of a push.  Pushes on private topics may leave it out: they carry whole records. -/
def pushKind? (topic : String) (kind : Option PushKind) : Option PushKind :=
  kind.or (match Topic.type topic with
    | .order | .wallet => some .snapshot
    | _ => none)

/-- The push that the fields make up. -/
def push (f : FrameFields) : Except Malformation Push :=
  match f.topic with
  | none => .error .noTopic
  | some topic =>
    match f.data with
    | none => .error .noData
    | some payload =>
      match f.timestamp with
      | none => .error .noTimestamp
      | some timestamp =>
        match pushKind? topic f.kind with
        | none => .error .noType
        | some kind => .ok { topic, kind, timestamp, payload }

end FrameFields

namespace Envelope

/-- The frame that the fields make up. -/
def ofFields (f : FrameFields) : Except Malformation Envelope :=
  match f.isOperational, f.isTopical with
  | true, false => .ok (acknowledgement f.acknowledgement)
  | false, true => f.push.map push
  | true, true => .error .mixed
  | false, false => .error .neither

/-- Reads a frame, with the cause where it is malformed. -/
def read (raw : List UInt8) : Except Malformation Envelope :=
  match Json.decode FrameFields.record.codec raw with
  | .error fault => .error (.json fault)
  | .ok f => ofFields f

/-- Reads a frame. -/
def decode (raw : List UInt8) : Except FeedError Envelope :=
  (read raw).mapError fun cause => .malformed cause (textOf raw)

/-- The acknowledgement that the frame is. -/
def acknowledgement? : Envelope → Option Acknowledgement
  | acknowledgement a => some a
  | push _ => none

/-- The push that the frame is. -/
def push? : Envelope → Option Push
  | acknowledgement _ => none
  | push p => some p

end Envelope

end MarketFeed
