import MarketFeed.Proofs.Exchange.Report
import MarketFeed.Proofs.Json.Returning

/-!
# Records of the exchange there and back

Decoding the text of a record gives back the record (`decode_encode_records`).  What has to be left
out is a listed name that is kept as an unknown one, which reads as the listed one, and a negative
zero, which reads as zero; a record without either is proper.
-/

namespace MarketFeed

open Json Json.Node

theorem Json.Field.Returns.amount {depth : Nat} {label key : String} {d : Decimal}
    (h : ¬d.IsNegativeZero) : (Field.amount label key).Returns depth d :=
  (Codec.returns_looseDecimal h).withDefault

/-! ### Price levels -/

namespace PriceLevel

/-- Neither the price nor the volume is a negative zero. -/
structure IsProper (l : PriceLevel) : Prop where
  price : ¬l.price.IsNegativeZero
  volume : ¬l.volume.IsNegativeZero

theorem returns {l : PriceLevel} (h : l.IsProper) : codec.Returns 1 l := by
  have hprice : Codec.decimal.Returns 0 l.price := Codec.returns_decimal h.price
  have hvolume : Codec.decimal.Returns 0 l.volume := Codec.returns_decimal h.volume
  constructor
  · refine isPlain_ofList ?_
    simp only [List.forall_mem_cons]
    exact ⟨hprice.plain, hvolume.plain, List.forall_mem_nil _⟩
  · rintro (_ | levels) hlevels
    · omega
    · refine Outcome.map_eq_ok_iff.2 ⟨(l.price, l.volume, ()), ?_, rfl⟩
      refine Outcome.bind_eq_ok_iff.2 ⟨l.price, hprice.read levels (Nat.zero_le _), ?_⟩
      refine Outcome.bind_eq_ok_iff.2 ⟨(l.volume, ()), ?_, rfl⟩
      exact Outcome.bind_eq_ok_iff.2 ⟨l.volume, hvolume.read levels (Nat.zero_le _), rfl⟩

end PriceLevel

/-! ### Candles -/

namespace Candle

/-- No price or volume is a negative zero. -/
def IsProper (c : Candle) : Prop :=
  ∀ d ∈ [c.opening, c.closing, c.high, c.low, c.volume, c.turnover], ¬d.IsNegativeZero

theorem returns {c : Candle} (h : c.IsProper) : codec.Returns 1 c := by
  simp only [IsProper, List.forall_mem_cons] at h
  obtain ⟨hopening, hclosing, hhigh, hlow, hvolume, hturnover, _⟩ := h
  refine Record.returns nodup_keys rfl ?_
  exact ⟨(Codec.returns_word _).required, (Codec.returns_word _).required,
    (Codec.returns_text _).required, (Codec.returns_decimal hopening).required,
    (Codec.returns_decimal hclosing).required,
    (Codec.returns_decimal hhigh).required,
    (Codec.returns_decimal hlow).required,
    (Codec.returns_decimal hvolume).required,
    (Codec.returns_decimal hturnover).required, (Codec.returns_flag _).required,
    (Codec.returns_word _).required, trivial⟩

end Candle

/-! ### Wallets -/

namespace CoinBalance

/-- No amount is a negative zero. -/
def IsProper (c : CoinBalance) : Prop :=
  ∀ d ∈ [c.equity, c.usdValue, c.walletBalance, c.availableToWithdraw, c.borrowAmount,
    c.accruedInterest, c.totalOrderIm, c.totalPositionIm, c.totalPositionMm, c.unrealisedPnl,
    c.cumRealisedPnl, c.locked], ¬d.IsNegativeZero

theorem returns {c : CoinBalance} (h : c.IsProper) : codec.Returns 1 c := by
  simp only [IsProper, List.forall_mem_cons] at h
  obtain ⟨h₁, h₂, h₃, h₄, h₅, h₆, h₇, h₈, h₉, h₁₀, h₁₁, h₁₂, _⟩ := h
  refine Record.returns nodup_keys rfl ?_
  exact ⟨(Codec.returns_text _).required, .amount h₁, .amount h₂,
    .amount h₃, .amount h₄, .amount h₅, .amount h₆,
    .amount h₇, .amount h₈, .amount h₉, .amount h₁₀,
    .amount h₁₁, .amount h₁₂, (Codec.returns_flag _).withDefault,
    (Codec.returns_flag _).withDefault, trivial⟩

end CoinBalance

namespace Wallet

/-- No amount is a negative zero, neither of the account nor of a coin. -/
structure IsProper (w : Wallet) : Prop where
  amounts : ∀ d ∈ [w.accountImRate, w.accountMmRate, w.totalEquity, w.totalWalletBalance,
    w.totalMarginBalance, w.totalAvailableBalance, w.totalPerpUpl, w.totalInitialMargin,
    w.totalMaintenanceMargin], ¬d.IsNegativeZero
  coins : ∀ c ∈ w.coins, c.IsProper

theorem returns {w : Wallet} (h : w.IsProper) : codec.Returns 3 w := by
  obtain ⟨hamounts, hcoins⟩ := h
  simp only [List.forall_mem_cons] at hamounts
  obtain ⟨h₁, h₂, h₃, h₄, h₅, h₆, h₇, h₈, h₉, _⟩ := hamounts
  refine Record.returns nodup_keys rfl ?_
  exact ⟨(Codec.returns_text _).required, .amount h₁, .amount h₂,
    .amount h₃, .amount h₄, .amount h₅, .amount h₆,
    .amount h₇, .amount h₈, .amount h₉,
    (Codec.returns_list fun c hc => CoinBalance.returns (hcoins c hc)).withDefault, trivial⟩

end Wallet

/-! ### Orders -/

namespace Order

/-- No listed name is kept as an unknown one, and no amount is a negative zero. -/
structure IsProper (o : Order) : Prop where
  side : ∀ raw, o.side = .unknown raw → raw ∉ ["Buy", "Sell"]
  orderType : ∀ raw, o.orderType = .unknown raw → raw ∉ ["Market", "Limit"]
  orderStatus : ∀ raw, o.orderStatus = .unknown raw → raw ∉ ["Created", "New", "Rejected",
    "PartiallyFilled", "PartiallyFilledCanceled", "Filled", "Cancelled", "Untriggered",
    "Triggered", "Deactivated", "Active"]
  timeInForce : ∀ raw, o.timeInForce = .unknown raw → raw ∉ ["GTC", "IOC", "FOK", "PostOnly"]
  amounts : ∀ d ∈ [o.price, o.qty, o.avgPrice, o.leavesQty, o.leavesValue, o.cumExecQty,
    o.cumExecValue, o.cumExecFee, o.triggerPrice, o.takeProfit, o.stopLoss], ¬d.IsNegativeZero

end Order

theorem Side.ofText_text {x : Side} (h : ∀ raw, x = .unknown raw → raw ∉ ["Buy", "Sell"]) :
    ofText x.text = x := by
  cases x with
  | unknown raw =>
    have hraw := h raw rfl
    simp only [List.mem_cons, List.not_mem_nil, or_false, not_or] at hraw
    simp [ofText, text, hraw]
  | _ => rfl

theorem OrderType.ofText_text {x : OrderType}
    (h : ∀ raw, x = .unknown raw → raw ∉ ["Market", "Limit"]) : ofText x.text = x := by
  cases x with
  | unknown raw =>
    have hraw := h raw rfl
    simp only [List.mem_cons, List.not_mem_nil, or_false, not_or] at hraw
    simp [ofText, text, hraw]
  | _ => rfl

theorem OrderStatus.ofText_text {x : OrderStatus}
    (h : ∀ raw, x = .unknown raw → raw ∉ ["Created", "New", "Rejected", "PartiallyFilled",
      "PartiallyFilledCanceled", "Filled", "Cancelled", "Untriggered", "Triggered",
      "Deactivated", "Active"]) : ofText x.text = x := by
  cases x with
  | unknown raw =>
    have hraw := h raw rfl
    simp only [List.mem_cons, List.not_mem_nil, or_false, not_or] at hraw
    simp [ofText, text, hraw]
  | _ => rfl

theorem TimeInForce.ofText_text {x : TimeInForce}
    (h : ∀ raw, x = .unknown raw → raw ∉ ["GTC", "IOC", "FOK", "PostOnly"]) :
    ofText x.text = x := by
  cases x with
  | unknown raw =>
    have hraw := h raw rfl
    simp only [List.mem_cons, List.not_mem_nil, or_false, not_or] at hraw
    simp [ofText, text, hraw]
  | _ => rfl

/-- The values of the fields of an order are returned. -/
theorem Order.return_values {o : Order} (h : o.IsProper) :
    Values.Return 0 record.fields (record.toValues o) := by
  obtain ⟨hside, htype, hstatus, htime, hamounts⟩ := h
  simp only [List.forall_mem_cons] at hamounts
  obtain ⟨h₁, h₂, h₃, h₄, h₅, h₆, h₇, h₈, h₉, h₁₀, h₁₁, _⟩ := hamounts
  exact ⟨(Codec.returns_text _).required, (Codec.returns_text _).withDefault,
    (Codec.returns_text _).required,
    (Codec.returns_named Side.inspect (Side.ofText_text hside)).required,
    (Codec.returns_named OrderType.inspect (OrderType.ofText_text htype)).required,
    (Codec.returns_named OrderStatus.inspect (OrderStatus.ofText_text hstatus)).required,
    (Codec.returns_named TimeInForce.inspect (TimeInForce.ofText_text htime)).required,
    .amount h₁, .amount h₂, .amount h₃, .amount h₄, .amount h₅, .amount h₆, .amount h₇,
    .amount h₈, .amount h₉, .amount h₁₀, .amount h₁₁, (Codec.returns_octet _).withDefault,
    (Codec.returns_flag _).withDefault, (Codec.returns_flag _).withDefault,
    (Codec.returns_text _).withDefault, (Codec.returns_text _).withDefault,
    (Codec.returns_text _).withDefault, (Codec.returns_word _).required,
    (Codec.returns_word _).required, trivial⟩

theorem Category.returns {depth : Nat} (c : Category) : codec.Returns depth c :=
  Codec.returns_choice inspect (by cases c <;> rfl)

namespace OrderReport

theorem isNamed_category (t : Node) :
    (member categoryKey t).isNamed categoryField.keys = true := by
  rw [isNamed_member, List.contains_iff_mem]
  exact List.mem_cons_self

variable {ms : List (Entry Node)}

theorem others_append (hms : ∀ m ∈ ms, m.isNamed categoryField.keys = false) (t : Node) :
    others (ms ++ [member categoryKey t]) = ms := by
  have hself : others ms = ms := List.filter_eq_self.2 fun m hm => by simp [hms m hm]
  have hlast : others [member categoryKey t] = [] :=
    List.filter_eq_nil_iff.2 (by simp [isNamed_category])
  rw [others, List.filter_append]
  exact (congrArg₂ (· ++ ·) hself hlast).trans (List.append_nil ms)

theorem values_append (hms : ∀ m ∈ ms, m.isNamed categoryField.keys = false) (t : Node) :
    valuesNamed categoryField.keys (ms ++ [member categoryKey t]) = [t] := by
  rw [valuesNamed_append, valuesNamed_eq_nil hms, valuesNamed_cons_pos (isNamed_category t)]
  rfl

/-- A category behind the members of an order does not change how the order is read. -/
theorem order_read_append {levels : Nat} {o : Order}
    (hms : ∀ m ∈ ms, m.isNamed categoryField.keys = false) {t : Node} (ht : t.isSound = true)
    (h : Order.codec.read (levels + 1) (ofMembers ms) = .ok o) :
    Order.codec.read (levels + 1) (ofMembers (ms ++ [member categoryKey t])) = .ok o := by
  obtain ⟨_, hmembers, hhold⟩ := order_read_iff.1 h
  have hignored : (member categoryKey t).isIgnorable = true := by
    rw [Entry.isIgnorable, member, StringPart.decode?_encode, ht]
    rfl
  refine order_read_iff.2 ⟨rfl, List.forall_mem_append.2 ⟨hmembers, ?_⟩, ?_⟩
  · exact List.forall_mem_singleton.2 (Or.inr hignored)
  · rw [← others_append hms t] at hhold
    exact hold_others_iff.1 hhold

theorem returns {r : OrderReport} (h : r.order.IsProper) : codec.Returns 1 r := by
  have hvalues := Order.return_values h
  have horder : Order.codec.Returns 1 r.order := Record.returns Order.nodup_keys rfl hvalues
  have hcategory : Category.codec.Returns 0 r.category := Category.returns r.category
  have hms : ∀ m ∈ Order.record.members r.order, m.isNamed categoryField.keys = false :=
    fun m hm => Entry.not_isNamed disjoint_keys (isNamed_of_mem_members hm)
  constructor
  · refine isPlain_ofMembers (List.forall_mem_append.2 ⟨areWritten_members hvalues, ?_⟩)
    exact List.forall_mem_singleton.2 ⟨categoryKey, _, rfl, hcategory.plain⟩
  · rintro (_ | levels) hlevels
    · omega
    · have hsound := (Bool.and_eq_true_iff.1 hcategory.plain.grammatical).2
      refine read_of_order (order_read_append hms hsound (horder.read _ hlevels))
        (values_append hms _) (hcategory.read levels (Nat.zero_le _)) ?_
      refine List.forall_mem_append.2 ⟨fun m hm hnamed => ?_,
        List.forall_mem_singleton.2 fun hnamed => ?_⟩
      · rw [keys, Entry.isNamed_append, isNamed_of_mem_members hm] at hnamed
        cases hnamed
      · rw [keys, Entry.isNamed_append, isNamed_category, Bool.or_true] at hnamed
        cases hnamed

end OrderReport

/-! ### Acknowledgements -/

theorem Operation.ofText_text {x : Operation}
    (h : ∀ raw, x = .unknown raw → raw ∉ ["ping", "pong", "auth", "subscribe"]) :
    ofText x.text = x := by
  cases x with
  | unknown raw =>
    have hraw := h raw rfl
    simp only [List.mem_cons, List.not_mem_nil, or_false, not_or] at hraw
    simp [ofText, text, hraw]
  | _ => rfl

namespace Acknowledgement

/-- No listed operation is kept as an unknown one. -/
def IsProper (a : Acknowledgement) : Prop :=
  ∀ raw, a.op = .unknown raw → raw ∉ ["ping", "pong", "auth", "subscribe"]

theorem returns {a : Acknowledgement} (h : a.IsProper) : codec.Returns 2 a := by
  have hreqId : (Codec.optional Codec.text).Returns 1 a.reqId :=
    Codec.returns_optional (fun _ => rfl) fun s _ => ⟨Codec.returns_text s, fun _ => rfl⟩
  have hnone (hnone : a.reqId.isNone = true) : some none = some a.reqId :=
    congrArg some (Option.isNone_iff_eq_none.1 hnone).symm
  refine Record.returns nodup_keys rfl ?_
  exact ⟨(Codec.returns_named Operation.inspect (Operation.ofText_text h)).required,
    (Codec.returns_flag _).withDefault, (Codec.returns_text _).withDefault,
    (Codec.returns_text _).withDefault, ⟨hreqId, hnone⟩,
    (Codec.returns_list fun s _ => Codec.returns_text s).withDefault, trivial⟩

end Acknowledgement

/-! ### All records -/

/-- Decoding the text of a proper record gives back the record. -/
theorem decode_encode_records :
    (∀ l : PriceLevel, l.IsProper →
      decode PriceLevel.codec (octets (encode PriceLevel.codec l)) = .ok l) ∧
    (∀ c : Candle, c.IsProper → decode Candle.codec (octets (encode Candle.codec c)) = .ok c) ∧
    (∀ r : OrderReport, r.order.IsProper →
      decode OrderReport.codec (octets (encode OrderReport.codec r)) = .ok r) ∧
    (∀ w : Wallet, w.IsProper → decode Wallet.codec (octets (encode Wallet.codec w)) = .ok w) ∧
    ∀ a : Acknowledgement, a.IsProper →
      decode Acknowledgement.codec (octets (encode Acknowledgement.codec a)) = .ok a :=
  ⟨fun _ h => (PriceLevel.returns h).decode_encode (by decide),
    fun _ h => (Candle.returns h).decode_encode (by decide),
    fun _ h => (OrderReport.returns h).decode_encode (by decide),
    fun _ h => (Wallet.returns h).decode_encode (by decide),
    fun _ h => (Acknowledgement.returns h).decode_encode (by decide)⟩

/-- The lowest price there is, and a volume of zero with all its places. -/
def lowestLevel : PriceLevel where
  price := ⟨true, mantissaBound - 1, 0, Nat.sub_lt Decimal.zero.mantissa_lt Nat.one_pos,
    Nat.zero_le _⟩
  volume := { Decimal.zero with scale := maxScale, scale_le := Nat.le_refl _ }

/-- An unlisted operation, with texts of which much has to be escaped. -/
def escapedAcknowledgement : Acknowledgement where
  op := .unknown "Ping"
  success := true
  retMsg := "\"\\\t\x01"
  connId := ""
  reqId := some "\u00e9\u20ac\x7f"
  args := ["kline.5.BTCUSDT", "/"]

/-- An amount in the last of all places. -/
def lastPlace : Decimal := ⟨false, 7, maxScale, by decide, Nat.le_refl _⟩

/-- A candle over all instants that a word can hold, with an interval that has to be escaped. -/
def widestCandle : Candle where
  startTime := 0
  endTime := .ofNat (UInt64.size - 1)
  interval := "\n"
  opening := lowestLevel.price
  closing := lastPlace
  high := lastPlace
  low := lowestLevel.price
  volume := lowestLevel.volume
  turnover := .zero
  confirmed := true
  lastTrade := 1

/-- An order with names that are not listed, but for their case, and amounts at their limits. -/
def unlistedReport : OrderReport where
  category := .options
  order :=
    { orderId := ""
      orderLinkId := "category"
      symbol := "BTC.USDT"
      side := .unknown "buy"
      orderType := .unknown ""
      orderStatus := .unknown "\"New\""
      timeInForce := .postOnly
      price := lowestLevel.price
      qty := lastPlace
      avgPrice := lowestLevel.volume
      leavesQty := .zero
      leavesValue := .zero
      cumExecQty := lastPlace
      cumExecValue := .zero
      cumExecFee := lowestLevel.price
      triggerPrice := .zero
      takeProfit := .zero
      stopLoss := .zero
      positionIdx := 255
      reduceOnly := true
      closeOnTrigger := false
      cancelType := "\u00e9"
      rejectReason := "EC_NoError"
      stopOrderType := ""
      createdTime := .ofNat (UInt64.size - 1)
      updatedTime := 0 }

/-- A balance whose amounts are all the same. -/
def evenBalance (coin : String) (d : Decimal) : CoinBalance :=
  ⟨coin, d, d, d, d, d, d, d, d, d, d, d, d, true, false⟩

/-- An account with debts in one coin and all its money in another. -/
def indebtedWallet : Wallet where
  accountType := "UNIFIED"
  accountImRate := lastPlace
  accountMmRate := .zero
  totalEquity := lowestLevel.price
  totalWalletBalance := lowestLevel.volume
  totalMarginBalance := .zero
  totalAvailableBalance := .zero
  totalPerpUpl := lowestLevel.price
  totalInitialMargin := .zero
  totalMaintenanceMargin := .zero
  coins := [evenBalance "BTC" lowestLevel.price, evenBalance "" lastPlace]

theorem decode_encode_records_extreme :
    (lowestLevel.IsProper ∧
      decode PriceLevel.codec (octets (encode PriceLevel.codec lowestLevel)) = .ok lowestLevel) ∧
    (widestCandle.IsProper ∧
      decode Candle.codec (octets (encode Candle.codec widestCandle)) = .ok widestCandle) ∧
    (unlistedReport.order.IsProper ∧
      decode OrderReport.codec (octets (encode OrderReport.codec unlistedReport)) =
        .ok unlistedReport) ∧
    (indebtedWallet.IsProper ∧
      decode Wallet.codec (octets (encode Wallet.codec indebtedWallet)) = .ok indebtedWallet) ∧
    escapedAcknowledgement.IsProper ∧
      decode Acknowledgement.codec (octets (encode Acknowledgement.codec escapedAcknowledgement)) =
        .ok escapedAcknowledgement := by
  obtain ⟨hlevels, hcandles, hreports, hwallets, hacknowledgements⟩ := decode_encode_records
  have hlevel : lowestLevel.IsProper := ⟨by decide, by decide⟩
  have hcandle : ∀ d ∈ [widestCandle.opening, widestCandle.closing, widestCandle.high,
      widestCandle.low, widestCandle.volume, widestCandle.turnover], ¬d.IsNegativeZero := by decide
  have hreport : unlistedReport.order.IsProper := by
    refine ⟨?_, ?_, ?_, nofun, by decide⟩
    all_goals
      rintro raw ⟨⟩
      decide
  have hwallet : indebtedWallet.IsProper := by
    have heven {coin : String} {d : Decimal} (hd : ¬d.IsNegativeZero) :
        (evenBalance coin d).IsProper := by
      simpa [CoinBalance.IsProper, evenBalance] using hd
    refine ⟨by decide, List.forall_mem_cons.2 ⟨?_, List.forall_mem_singleton.2 ?_⟩⟩
    · exact heven (by decide)
    · exact heven (by decide)
  have hacknowledgement : escapedAcknowledgement.IsProper := by
    rintro raw ⟨⟩
    decide
  exact ⟨⟨hlevel, hlevels _ hlevel⟩, ⟨hcandle, hcandles _ hcandle⟩, ⟨hreport, hreports _ hreport⟩,
    ⟨hwallet, hwallets _ hwallet⟩, hacknowledgement, hacknowledgements _ hacknowledgement⟩

end MarketFeed
