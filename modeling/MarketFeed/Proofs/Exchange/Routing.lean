import MarketFeed.Proofs.Exchange.Frame
import MarketFeed.Proofs.Exchange.Push

/-!
# Events by topic

The event of a push is of the type that the first segment of its topic names (`Event.IsOfType`) and
has what the payload lists (`Push.Carries`): one level, candle, report, wallet or balance for each
element of an array, in their order.  Where one element is no such record (`Push.HasBadRecord`)
there is no event.
-/

namespace MarketFeed

open Json Json.Node

/-- The levels of an order book are those that a payload lists. -/
def BookPayload.HasLevels (payload : Node) (b : BookPayload) : Prop :=
  ∃ bids asks, payload.field? ["b"] 1 = some bids ∧ payload.field? ["a"] 2 = some asks ∧
    bids.Lists (PriceLevel.codec.Reads (allLevels - 2)) b.bids ∧
    asks.Lists (PriceLevel.codec.Reads (allLevels - 2)) b.asks

/-- The balances of a wallet are those that an element of a payload lists, if it lists any. -/
def Wallet.HasCoins (t : Node) (w : Wallet) : Prop :=
  (t.fieldValues ["coin"] 10 = [] ∧ w.coins = []) ∨
    ∃ coins, t.field? ["coin"] 10 = some coins ∧
      coins.Lists (CoinBalance.codec.Reads (allLevels - 3)) w.coins

/-- An event is of the type that a segment of a topic names, which is one of four. -/
structure Event.IsOfType (segment : String) (event : Event) : Prop where
  known : segment ∈ ["orderbook", "kline", "order", "wallet"]
  book : (∃ b, event = .book b) ↔ segment = "orderbook"
  candles : (∃ c, event = .candles c) ↔ segment = "kline"
  orders : (∃ reports, event = .orders reports) ↔ segment = "order"
  wallets : (∃ wallets, event = .wallets wallets) ↔ segment = "wallet"

namespace Push

/-- An event has the kind of a push, the symbol of its topic, and what its payload lists. -/
def Carries (p : Push) (payload : Node) : Event → Prop
  | .acknowledgement _ => False
  | .book b => b.kind = p.kind ∧ b.HasLevels payload
  | .candles c => c.kind = p.kind ∧ Topic.HasSymbol p.topic c.symbol ∧ c.candles ≠ [] ∧
    payload.Lists (Candle.codec.Reads (allLevels - 1)) c.candles
  | .orders reports => payload.Lists (OrderReport.codec.Reads (allLevels - 1)) reports
  | .wallets wallets =>
    payload.Lists (fun t w => Wallet.codec.Reads (allLevels - 1) t w ∧ w.HasCoins t) wallets

/-- The payload of a push lists something that is no record of the kind that its topic calls for. -/
inductive HasBadRecord (p : Push) (payload : Node) : Prop
  | bid {bids : Node} (htopic : Topic.first p.topic = "orderbook")
    (hbids : payload.field? ["b"] 1 = some bids)
    (hbad : PriceLevel.codec.Misreads (allLevels - 2) bids)
  | ask {asks : Node} (htopic : Topic.first p.topic = "orderbook")
    (hasks : payload.field? ["a"] 2 = some asks)
    (hbad : PriceLevel.codec.Misreads (allLevels - 2) asks)
  | candle (htopic : Topic.first p.topic = "kline")
    (hbad : Candle.codec.Misreads (allLevels - 1) payload)
  | order (htopic : Topic.first p.topic = "order")
    (hbad : OrderReport.codec.Misreads (allLevels - 1) payload)
  | wallet (htopic : Topic.first p.topic = "wallet")
    (hbad : Wallet.codec.Misreads (allLevels - 1) payload)
  | coin {ts : List Node} {t coins : Node} (htopic : Topic.first p.topic = "wallet")
    (hts : payload.list? = some ts) (ht : t ∈ ts) (hcoins : t.field? ["coin"] 10 = some coins)
    (hbad : CoinBalance.codec.Misreads (allLevels - 3) coins)

end Push

/-! ### Records that list others -/

theorem BookPayload.hasLevels_of_read {t : Node} {b : BookPayload}
    (h : codec.read allLevels t = .ok b) : b.HasLevels t := by
  obtain ⟨_, ⟨bids, hbidsField, hbids⟩, ⟨asks, hasksField, hasks⟩, _⟩ := isOf_of_read h
  exact ⟨bids, asks, hbidsField, hasksField, Codec.lists_of_read (allLevels - 2) hbids,
    Codec.lists_of_read (allLevels - 2) hasks⟩

theorem Wallet.hasCoins_of_read {t : Node} {w : Wallet}
    (h : codec.read (allLevels - 1) t = .ok w) : w.HasCoins t := by
  obtain ⟨levels, xs, hlevels, hxs, rfl⟩ := Record.hold_of_read nodup_keys h
  obtain rfl : allLevels - 2 = levels := Nat.succ.inj hlevels
  obtain ⟨_, _, _, _, _, _, _, _, _, _, hcoins, _⟩ := hxs
  rcases hcoins with ⟨hnone, hdefault⟩ | ⟨coins, hvalue, hread⟩
  · exact Or.inl ⟨hnone, (Option.some.inj hdefault).symm⟩
  · refine Or.inr ⟨coins, ?_, Codec.lists_of_read (allLevels - 3) hread⟩
    have hvalues : t.fieldValues ["coin"] 10 = [coins] := hvalue
    rw [field?, hvalues]

namespace Push

variable {p : Push} {payload : Node}

theorem isOfType_of_yields {event : Event} (h : p.Yields event) :
    event.IsOfType (Topic.first p.topic) := by
  cases h with
  | book htype =>
    rw [(topicType_eq_iff rfl).1 htype]
    constructor <;> simp [TopicType.text]
  | candles htype =>
    rw [(topicType_eq_iff rfl).1 htype]
    constructor <;> simp [TopicType.text]
  | orders htype =>
    rw [(topicType_eq_iff rfl).1 htype]
    constructor <;> simp [TopicType.text]
  | wallets htype =>
    rw [(topicType_eq_iff rfl).1 htype]
    constructor <;> simp [TopicType.text]

theorem carries_of_yields (hpayload : Spells (octets p.payload) payload) {event : Event}
    (h : p.Yields event) : p.Carries payload event := by
  cases h with
  | book _ hread =>
    rw [decode_of_spells BookPayload.codec hpayload] at hread
    exact ⟨rfl, BookPayload.hasLevels_of_read hread⟩
  | candles _ hsymbol hread hne =>
    rw [decode_of_spells (.list Candle.codec) hpayload] at hread
    exact ⟨rfl, Topic.symbol?_eq_some_iff.1 hsymbol, hne, Codec.lists_of_read _ hread⟩
  | orders _ hread =>
    rw [decode_of_spells (.list OrderReport.codec) hpayload] at hread
    exact Codec.lists_of_read _ hread
  | wallets _ hread =>
    rw [decode_of_spells (.list Wallet.codec) hpayload] at hread
    obtain ⟨ts, hts, hreads⟩ := Codec.lists_of_read (allLevels - 1) hread
    exact ⟨ts, hts, hreads.imp fun _ _ h => ⟨h, Wallet.hasCoins_of_read h⟩⟩

/-- No event carries what a payload with a bad record lists. -/
theorem not_carries (hbad : p.HasBadRecord payload) {event : Event}
    (htype : event.IsOfType (Topic.first p.topic)) : ¬p.Carries payload event := by
  intro hcarries
  -- The topic decides the type of the event, and with it the list that the bad record is in.
  cases hbad with
  | bid htopic hbids hbad =>
    obtain ⟨b, rfl⟩ := htype.book.2 htopic
    obtain ⟨_, bids, _, hfield, _, hlists, _⟩ := hcarries
    obtain rfl := Option.some.inj (hbids.symm.trans hfield)
    exact Codec.not_misreads hlists hbad
  | ask htopic hasks hbad =>
    obtain ⟨b, rfl⟩ := htype.book.2 htopic
    obtain ⟨_, _, asks, _, hfield, _, hlists⟩ := hcarries
    obtain rfl := Option.some.inj (hasks.symm.trans hfield)
    exact Codec.not_misreads hlists hbad
  | candle htopic hbad =>
    obtain ⟨c, rfl⟩ := htype.candles.2 htopic
    obtain ⟨_, _, _, hlists⟩ := hcarries
    exact Codec.not_misreads hlists hbad
  | order htopic hbad =>
    obtain ⟨reports, rfl⟩ := htype.orders.2 htopic
    exact Codec.not_misreads hcarries hbad
  | wallet htopic hbad =>
    obtain ⟨wallets, rfl⟩ := htype.wallets.2 htopic
    obtain ⟨ts, hts, hreads⟩ := hcarries
    exact Codec.not_misreads ⟨ts, hts, hreads.imp fun _ _ h => h.1⟩ hbad
  | coin htopic hts ht hcoins hbad =>
    obtain ⟨wallets, rfl⟩ := htype.wallets.2 htopic
    obtain ⟨ts', hts', hreads⟩ := hcarries
    obtain rfl := Option.some.inj (hts.symm.trans hts')
    obtain ⟨w, _, _, hw⟩ := Outcome.exists_of_forall₂ hreads ht
    rcases hw with ⟨hnone, _⟩ | ⟨coins', hcoins', hlists⟩
    · rw [field?, hnone] at hcoins
      cases hcoins
    · obtain rfl := Option.some.inj (hcoins.symm.trans hcoins')
      exact Codec.not_misreads hlists hbad

end Push

/-- What is read from a push is an event of the type that its topic names with all that its payload
lists, and nothing is read where the payload lists what is no record. -/
theorem Event.read_carries {table : IntervalTable} {raw : List UInt8} {p : Push}
    (hpush : Envelope.decode raw = .ok (.push p)) :
    ∃ frame payload, Spells raw frame ∧ frame.field? ["data"] 9 = some payload ∧
      Spells (octets p.payload) payload ∧
      (∀ event, (table.feed.read raw).result = .ok event →
        event.IsOfType (Topic.first p.topic) ∧ p.Carries payload event) ∧
      (p.HasBadRecord payload → ∃ e, (table.feed.read raw).result = .error e) := by
  have hread : (table.feed.read raw).result = p.event :=
    (result_read raw).trans (ofFrame_of_push hpush)
  obtain ⟨frame, payload, hframe, hdata, hpayload⟩ := Envelope.spells_payload hpush
  rw [hread]
  refine ⟨frame, payload, hframe, hdata, hpayload, fun event hevent => ?_, fun hbad => ?_⟩
  · have hyields := Push.event_eq_ok_iff.1 hevent
    exact ⟨Push.isOfType_of_yields hyields, Push.carries_of_yields hpayload hyields⟩
  · cases hevent : p.event with
    | error e => exact ⟨e, rfl⟩
    | ok event =>
      have hyields := Push.event_eq_ok_iff.1 hevent
      exact absurd (Push.carries_of_yields hpayload hyields)
        (Push.not_carries hbad (Push.isOfType_of_yields hyields))

/-- The payload of two wallets, the first with two balances and the second with none. -/
def walletPayload : Node :=
  ofList [
    ofPairs [
      ("accountType", ofString "UNIFIED"),
      ("coin", ofList [ofPairs [("coin", ofString "BTC")], ofPairs [("coin", ofString "USDT")]])],
    ofPairs [("accountType", ofString "SPOT")]]

/-- A frame that pushes them. -/
def walletFrame : Node :=
  ofPairs [
    ("topic", ofString "wallet"),
    ("creationTime", ofNat 1672304484978),
    ("data", walletPayload)]

theorem Event.read_carries_wallets :
    Envelope.decode walletFrame.text =
        .ok (.push ⟨"wallet", .snapshot, 1672304484978, textOf walletPayload.text⟩) ∧
      ∃ payload wallets, Spells (octets (textOf walletPayload.text)) payload ∧
        (IntervalTable.standard.feed.read walletFrame.text).result = .ok (.wallets wallets) ∧
        payload.Lists (fun t w => Wallet.codec.Reads (allLevels - 1) t w ∧ w.HasCoins t) wallets ∧
        wallets.map (·.coins.length) = [2, 0] := by
  have hpush : Envelope.decode walletFrame.text =
      .ok (.push ⟨"wallet", .snapshot, 1672304484978, textOf walletPayload.text⟩) := by
    decide +kernel
  obtain ⟨_, payload, _, _, hpayload, hcarries, _⟩ :=
    @Event.read_carries IntervalTable.standard _ _ hpush
  have hcoins : (((IntervalTable.standard.feed.read walletFrame.text).result.toOption.bind
      Event.wallets?).map fun wallets => wallets.map (·.coins.length)) = some [2, 0] := by
    decide +kernel
  refine ⟨hpush, payload, ?_⟩
  cases hread : (IntervalTable.standard.feed.read walletFrame.text).result with
  | error e =>
    rw [hread] at hcoins
    cases hcoins
  | ok event =>
    obtain ⟨htype, hlists⟩ := hcarries event hread
    obtain ⟨wallets, rfl⟩ := htype.wallets.2 (by decide)
    rw [hread] at hcoins
    exact ⟨wallets, hpayload, rfl, hlists, Option.some.inj hcoins⟩

end MarketFeed
