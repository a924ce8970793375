import MarketFeed.Json.Inline

/-!
# Orders of the exchange

An `Order` as the exchange reports it, and an `OrderReport`, which adds the product line.  Sides,
types, validities and states are open lists: a text that is not listed is kept as it is.  A report
is one object with the members of the order and the category: reading it takes the category where it
stands, keeps all other members, and reads the order from what was kept (`OrderReport.read`).
-/

namespace MarketFeed

/-- The side of an order. -/
inductive Side where
  | buy
  | sell
  | unknown (raw : String)
  deriving DecidableEq, Repr

namespace Side

/-- The side with a given text. -/
def ofText (s : String) : Side :=
  if s = "Buy" then buy
  else if s = "Sell" then sell
  else unknown s

/-- The text of a side. -/
def text : Side → String
  | buy => "Buy"
  | sell => "Sell"
  | unknown raw => raw

/-- A side in a diagnostic. -/
def inspect : Side → String
  | buy => "Buy"
  | sell => "Sell"
  | unknown raw => "Unknown(" ++ Text.quoted raw ++ ")"

/-- Whether the side is one of those listed. -/
def isKnown : Side → Bool
  | unknown _ => false
  | _ => true

/-- Sides by their texts. -/
def inlineCodec : Json.InlineCodec Side := .named ofText text inspect

/-- Sides by their texts. -/
def codec : Json.Codec Side := inlineCodec.toCodec

end Side

/-- How an order is priced. -/
inductive OrderType where
  | market
  | limit
  | unknown (raw : String)
  deriving DecidableEq, Repr

namespace OrderType

/-- The order type with a given text. -/
def ofText (s : String) : OrderType :=
  if s = "Market" then market
  else if s = "Limit" then limit
  else unknown s

/-- The text of an order type. -/
def text : OrderType → String
  | market => "Market"
  | limit => "Limit"
  | unknown raw => raw

/-- An order type in a diagnostic. -/
def inspect : OrderType → String
  | market => "Market"
  | limit => "Limit"
  | unknown raw => "Unknown(" ++ Text.quoted raw ++ ")"

/-- Whether the order type is one of those listed. -/
def isKnown : OrderType → Bool
  | unknown _ => false
  | _ => true

/-- Order types by their texts. -/
def inlineCodec : Json.InlineCodec OrderType := .named ofText text inspect

/-- Order types by their texts. -/
def codec : Json.Codec OrderType := inlineCodec.toCodec

end OrderType

/-- How long an order is good for. -/
inductive TimeInForce where
  | gtc
  | ioc
  | fok
  | postOnly
  | unknown (raw : String)
  deriving DecidableEq, Repr

namespace TimeInForce

/-- The time in force with a given text. -/
def ofText (s : String) : TimeInForce :=
  if s = "GTC" then gtc
  else if s = "IOC" then ioc
  else if s = "FOK" then fok
  else if s = "PostOnly" then postOnly
  else unknown s

/-- The text of a time in force. -/
def text : TimeInForce → String
  | gtc => "GTC"
  | ioc => "IOC"
  | fok => "FOK"
  | postOnly => "PostOnly"
  | unknown raw => raw

/-- A time in force in a diagnostic. -/
def inspect : TimeInForce → String
  | gtc => "Gtc"
  | ioc => "Ioc"
  | fok => "Fok"
  | postOnly => "PostOnly"
  | unknown raw => "Unknown(" ++ Text.quoted raw ++ ")"

/-- Whether the time in force is one of those listed. -/
def isKnown : TimeInForce → Bool
  | unknown _ => false
  | _ => true

/-- Times in force by their texts. -/
def inlineCodec : Json.InlineCodec TimeInForce := .named ofText text inspect

/-- Times in force by their texts. -/
def codec : Json.Codec TimeInForce := inlineCodec.toCodec

end TimeInForce

/-- The state of an order. -/
inductive OrderStatus where
  | created
  | new
  | rejected
  | partiallyFilled
  | partiallyFilledCanceled
  | filled
  | cancelled
  | untriggered
  | triggered
  | deactivated
  | active
  | unknown (raw : String)
  deriving DecidableEq, Repr

namespace OrderStatus

/-- The order status with a given text. -/
def ofText (s : String) : OrderStatus :=
  if s = "Created" then created
  else if s = "New" then new
  else if s = "Rejected" then rejected
  else if s = "PartiallyFilled" then partiallyFilled
  else if s = "PartiallyFilledCanceled" then partiallyFilledCanceled
  else if s = "Filled" then filled
  else if s = "Cancelled" then cancelled
  else if s = "Untriggered" then untriggered
  else if s = "Triggered" then triggered
  else if s = "Deactivated" then deactivated
  else if s = "Active" then active
  else unknown s

/-- The text of an order status. -/
def text : OrderStatus → String
  | created => "Created"
  | new => "New"
  | rejected => "Rejected"
  | partiallyFilled => "PartiallyFilled"
  | partiallyFilledCanceled => "PartiallyFilledCanceled"
  | filled => "Filled"
  | cancelled => "Cancelled"
  | untriggered => "Untriggered"
  | triggered => "Triggered"
  | deactivated => "Deactivated"
  | active => "Active"
  | unknown raw => raw

/-- An order status in a diagnostic. -/
def inspect : OrderStatus → String
  | created => "Created"
  | new => "New"
  | rejected => "Rejected"
  | partiallyFilled => "PartiallyFilled"
  | partiallyFilledCanceled => "PartiallyFilledCanceled"
  | filled => "Filled"
  | cancelled => "Cancelled"
  | untriggered => "Untriggered"
  | triggered => "Triggered"
  | deactivated => "Deactivated"
  | active => "Active"
  | unknown raw => "Unknown(" ++ Text.quoted raw ++ ")"

/-- Whether the order status is one of those listed. -/
def isKnown : OrderStatus → Bool
  | unknown _ => false
  | _ => true

/-- Order states by their texts. -/
def inlineCodec : Json.InlineCodec OrderStatus := .named ofText text inspect

/-- Order states by their texts. -/
def codec : Json.Codec OrderStatus := inlineCodec.toCodec

/-- Whether the order will not change any more. -/
def isFinal : OrderStatus → Bool
  | rejected | partiallyFilledCanceled | filled | cancelled | deactivated => true
  | _ => false

end OrderStatus

/-- The product line of an order. -/
inductive Category where
  | spot
  | linear
  | inverse
  | options
  deriving DecidableEq, Repr

namespace Category

/-- All categories. -/
def all : List Category := [spot, linear, inverse, options]

/-- The text of a category. -/
def text : Category → String
  | spot => "spot"
  | linear => "linear"
  | inverse => "inverse"
  | options => "option"

/-- A category in a diagnostic. -/
def inspect : Category → String
  | spot => "Spot"
  | linear => "Linear"
  | inverse => "Inverse"
  | options => "Options"

/-- Categories by their texts. -/
def codec : Json.Codec Category := .choice (all.map fun c => (c.text, c)) text inspect

end Category

/-- An order as the exchange reports it. -/
structure Order where
  orderId : String
  orderLinkId : String
  symbol : String
  side : Side
  orderType : OrderType
  orderStatus : OrderStatus
  timeInForce : TimeInForce
  price : Decimal
  qty : Decimal
  avgPrice : Decimal
  leavesQty : Decimal
  leavesValue : Decimal
  cumExecQty : Decimal
  cumExecValue : Decimal
  cumExecFee : Decimal
  triggerPrice : Decimal
  takeProfit : Decimal
  stopLoss : Decimal
  positionIdx : UInt8
  reduceOnly : Bool
  closeOnTrigger : Bool
  cancelType : String
  rejectReason : String
  stopOrderType : String
  createdTime : UInt64
  updatedTime : UInt64
  deriving DecidableEq

namespace Order

open Json

/-- The fields of an order. -/
def inline : InlineRecord Order where
  name := "Order"
  fields := [
    .required "order_id" "orderId" .text,
    .withDefault "order_link_id" "orderLinkId" .text "",
    .required "symbol" "symbol" .text,
    .required "side" "side" Side.inlineCodec,
    .required "order_type" "orderType" OrderType.inlineCodec,
    .required "order_status" "orderStatus" OrderStatus.inlineCodec,
    .required "time_in_force" "timeInForce" TimeInForce.inlineCodec,
    .amount "price" "price",
    .amount "qty" "qty",
    .amount "avg_price" "avgPrice",
    .amount "leaves_qty" "leavesQty",
    .amount "leaves_value" "leavesValue",
    .amount "cum_exec_qty" "cumExecQty",
    .amount "cum_exec_value" "cumExecValue",
    .amount "cum_exec_fee" "cumExecFee",
    .amount "trigger_price" "triggerPrice",
    .amount "take_profit" "takeProfit",
    .amount "stop_loss" "stopLoss",
    .withDefault "position_idx" "positionIdx" .octet 0,
    .withDefault "reduce_only" "reduceOnly" .flag false,
    .withDefault "close_on_trigger" "closeOnTrigger" .flag false,
    .withDefault "cancel_type" "cancelType" .text "",
    .withDefault "reject_reason" "rejectReason" .text "",
    .withDefault "stop_order_type" "stopOrderType" .text "",
    .required "created_time" "createdTime" .word,
    .required "updated_time" "updatedTime" .word]
  ofValues := fun (orderId, orderLinkId, symbol, side, orderType, orderStatus, timeInForce, price,
      qty, avgPrice, leavesQty, leavesValue, cumExecQty, cumExecValue, cumExecFee, triggerPrice,
      takeProfit, stopLoss, positionIdx, reduceOnly, closeOnTrigger, cancelType, rejectReason,
      stopOrderType, createdTime, updatedTime, ()) =>
    { orderId, orderLinkId, symbol, side, orderType, orderStatus, timeInForce, price, qty,
      avgPrice, leavesQty, leavesValue, cumExecQty, cumExecValue, cumExecFee, triggerPrice,
      takeProfit, stopLoss, positionIdx, reduceOnly, closeOnTrigger, cancelType, rejectReason,
      stopOrderType, createdTime, updatedTime }
  toValues o := (o.orderId, o.orderLinkId, o.symbol, o.side, o.orderType, o.orderStatus,
    o.timeInForce, o.price, o.qty, o.avgPrice, o.leavesQty, o.leavesValue, o.cumExecQty,
    o.cumExecValue, o.cumExecFee, o.triggerPrice, o.takeProfit, o.stopLoss, o.positionIdx,
    o.reduceOnly, o.closeOnTrigger, o.cancelType, o.rejectReason, o.stopOrderType, o.createdTime,
    o.updatedTime, ())

/-- Orders as records of their own. -/
def record : Record Order := inline.record

/-- Orders as objects. -/
def codec : Codec Order := record.codec

end Order

/-- An order and its product line. -/
structure OrderReport where
  order : Order
  category : Category
  deriving DecidableEq

namespace OrderReport

open Json

/-- The key of the category. -/
def categoryKey : String := "category"

/-- The wording of what a report expects. -/
def expected : String := "struct OrderEvent"

/-- Takes the category from members and keeps all others in their order. -/
def sift (levels : Nat) : Option Category → List (Entry Node) →
    Except Fault (Option Category × List (String × Buffered))
  | found, [] => .ok (found, [])
  | found, m :: ms => do
    let key ← Codec.readText "a string" (.string m.key)
    if key = categoryKey then
      if found.isSome then throw (.duplicateField categoryKey)
      else
        let category ← Category.codec.read levels m.value
        sift levels (some category) ms
    else
      match Buffered.ofNode? levels m.value with
      | none => throw .grammar
      | some value =>
        let (found, kept) ← sift levels found ms
        return (found, (key, value) :: kept)

/-- Reads a report from an object. -/
def read (levels : Nat) (node : Node) : Except Fault OrderReport :=
  match node, levels with
  | .object .., 0 => .error .grammar
  | .object members ending, levels + 1 => do
    let (found, kept) ← sift levels none members
    ending.check
    match found with
    | none => throw (.missingField categoryKey)
    | some category =>
      let order ← Order.inline.replay kept
      return { order, category }
  | node, _ => .error (mismatch node expected)

/-- Reports as objects: the members of the order, then the category. -/
def codec : Codec OrderReport where
  read := read
  write r := Node.ofMembers (Order.record.members r.order
    ++ [Node.member categoryKey (Category.codec.write r.category)])
  inspect r := inspectRecord "OrderEvent" ["order: " ++ Order.codec.inspect r.order,
    "category: " ++ Category.codec.inspect r.category]
  same a b := Order.codec.same a.order b.order && a.category == b.category

end OrderReport

end MarketFeed
