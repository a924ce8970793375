import MarketFeed.Json.Record

/-!
# Acknowledgements

The exchange answers an operation of a connection with an `Acknowledgement`.  What makes one
acceptable depends on the operation (`Acknowledgement.isAccepted`).
-/

namespace MarketFeed

/-- What a connection asks of the exchange. -/
inductive Operation where
  | ping
  | pong
  | auth
  | subscribe
  | unknown (raw : String)
  deriving DecidableEq, Repr

namespace Operation

/-- The operation with a given text. -/
def ofText (s : String) : Operation :=
  if s = "ping" then ping
  else if s = "pong" then pong
  else if s = "auth" then auth
  else if s = "subscribe" then subscribe
  else unknown s

/-- The text of an operation. -/
def text : Operation → String
  | ping => "ping"
  | pong => "pong"
  | auth => "auth"
  | subscribe => "subscribe"
  | unknown raw => raw

/-- An operation in a diagnostic. -/
def inspect : Operation → String
  | ping => "Ping"
  | pong => "Pong"
  | auth => "Auth"
  | subscribe => "Subscribe"
  | unknown raw => "Unknown(" ++ Text.quoted raw ++ ")"

/-- Operations by their texts. -/
def codec : Json.Codec Operation := .named ofText text inspect

end Operation

/-- The answer to an operation. -/
structure Acknowledgement where
  op : Operation
  success : Bool
  retMsg : String
  connId : String
  reqId : Option String
  args : List String
  deriving DecidableEq, Repr

namespace Acknowledgement

open Json in
/-- The fields of an acknowledgement. -/
def record : Json.Record Acknowledgement where
  name := "OpEvent"
  fields := [
    .required "op" "op" Operation.codec,
    .withDefault "success" "success" .flag false,
    .withDefault "ret_msg" "ret_msg" .text "",
    .withDefault "conn_id" "conn_id" .text "",
    { Field.withDefault "req_id" "req_id" (.optional .text) none with isOmitted := Option.isNone },
    .withDefault "args" "args" (.list .text) []]
  ofValues := fun (op, success, retMsg, connId, reqId, args, ()) =>
    { op, success, retMsg, connId, reqId, args }
  toValues a := (a.op, a.success, a.retMsg, a.connId, a.reqId, a.args, ())

/-- Acknowledgements as objects. -/
def codec : Json.Codec Acknowledgement := record.codec

/-- Whether the exchange has done what the operation asks: a pong always counts, a subscription has
to succeed, a ping also has to be answered by a pong, and an authentication without remark. -/
def isAccepted (a : Acknowledgement) : Bool :=
  match a.op with
  | .ping => a.success && a.retMsg == Operation.pong.text
  | .pong => true
  | .auth => a.success && a.retMsg.isEmpty
  | .subscribe => a.success
  | .unknown _ => false

/-- Whether the operation keeps the connection alive. -/
def isHeartbeat (a : Acknowledgement) : Bool :=
  match a.op with
  | .ping | .pong => true
  | _ => false

end Acknowledgement

end MarketFeed
