import MarketFeed.Proofs.Decimal.Exactness
import MarketFeed.Proofs.Exchange.Content
import MarketFeed.Proofs.Market.Verbatim

/-!
# What prices are worth

The prices and volumes of an order book or of candles are worth what their texts on the wire spell
exactly where decimals can be worth that (`Decimal.Weighs`), and market data has the same decimals
(`Event.Weighs`).  A text with more places than a decimal has is not refused but rounded.
-/

namespace MarketFeed

open Json Json.Node

/-- A decimal is worth what a text spells exactly if decimals can be worth as much as its base and
as the whole of it. -/
def Decimal.Weighs (s : String) (d : Decimal) : Prop :=
  d.worth = Decimal.spelled s ↔
    Decimal.IsRepresentable (Decimal.spelledBase (Decimal.baseOf s)) ∧
      Decimal.IsRepresentable (Decimal.spelled s)

/-- The decimals of a level are worth what its texts spell, as far as can be. -/
structure LevelTexts.Weighs (l : LevelTexts) (level : PriceLevel) : Prop where
  price : Decimal.Weighs l.price level.price
  volume : Decimal.Weighs l.volume level.volume

/-- The decimals of a candle are worth what its texts spell, as far as can be. -/
structure CandleTexts.Weighs (c : CandleTexts) (candle : Candle) : Prop where
  opening : Decimal.Weighs c.opening candle.opening
  closing : Decimal.Weighs c.closing candle.closing
  high : Decimal.Weighs c.high candle.high
  low : Decimal.Weighs c.low candle.low
  volume : Decimal.Weighs c.volume candle.volume
  turnover : Decimal.Weighs c.turnover candle.turnover

theorem LevelTexts.Reads.weighs {l : LevelTexts} {level : PriceLevel} (h : l.Reads level) :
    l.Weighs level :=
  ⟨Decimal.worth_eq_spelled_iff h.price, Decimal.worth_eq_spelled_iff h.volume⟩

theorem CandleTexts.Reads.weighs {c : CandleTexts} {candle : Candle} (h : c.Reads candle) :
    c.Weighs candle where
  opening := Decimal.worth_eq_spelled_iff h.opening
  closing := Decimal.worth_eq_spelled_iff h.closing
  high := Decimal.worth_eq_spelled_iff h.high
  low := Decimal.worth_eq_spelled_iff h.low
  volume := Decimal.worth_eq_spelled_iff h.volume
  turnover := Decimal.worth_eq_spelled_iff h.turnover

/-- Levels on the two sides of an order book payload, and the levels read from them. -/
def WeighsBook (payload : Node) (bids asks : List PriceLevel) : Prop :=
  ∃ b a bidTexts askTexts, payload.field? ["b"] 1 = some b ∧ payload.field? ["a"] 2 = some a ∧
    wireLevels? b = some bidTexts ∧ wireLevels? a = some askTexts ∧
    List.Forall₂ LevelTexts.Weighs bidTexts bids ∧ List.Forall₂ LevelTexts.Weighs askTexts asks

/-- Candles on the wire, and the candles read from them. -/
def WeighsCandles (payload : Node) (candles : List Candle) : Prop :=
  ∃ texts, wireCandles? payload = some texts ∧
    List.Forall₂ CandleTexts.Weighs texts candles

/-- The decimals of an event are worth what a payload has in their place, as far as can be, and
market data has the same decimals. -/
def Event.Weighs (payload : Node) : Event → Prop
  | book b => WeighsBook payload b.bids b.asks ∧ ∀ table, ∃ update,
      IntervalTable.marketData table (book b) = .ok [.book update] ∧
        update.book.bids = b.bids ∧ update.book.asks = b.asks
  | candles c => WeighsCandles payload c.candles ∧ ∀ table data,
      IntervalTable.marketData table (candles c) = .ok data →
        ∃ bars, data = bars.map .bar ∧ List.Forall₂ SamePrices c.candles bars
  | _ => True

namespace Push

variable {p : Push} {event : Event}

theorem exists_weighsBook {b : BookPayload}
    (h : Json.decode BookPayload.codec (octets p.payload) = .ok b) :
    ∃ payload, Spells (octets p.payload) payload ∧ WeighsBook payload b.bids b.asks := by
  obtain ⟨payload, hpayload, hread⟩ := (decode_eq_ok_iff BookPayload.goesByContent.sound).1 h
  obtain ⟨bids, asks, bidTexts, askTexts, hb, ha, hwireBids, hwireAsks, hbids, hasks⟩ :=
    wireLevels_of_book hread
  exact ⟨payload, hpayload, bids, asks, bidTexts, askTexts, hb, ha, hwireBids, hwireAsks,
    hbids.imp fun _ _ => LevelTexts.Reads.weighs, hasks.imp fun _ _ => LevelTexts.Reads.weighs⟩

theorem exists_weighsCandles {candles : List Candle}
    (h : Json.decode (.list Candle.codec) (octets p.payload) = .ok candles) :
    ∃ payload, Spells (octets p.payload) payload ∧ WeighsCandles payload candles := by
  obtain ⟨payload, hpayload, hread⟩ := (decode_eq_ok_iff Candle.goesByContent.list.sound).1 h
  obtain ⟨texts, hwire, hreads⟩ := wireCandles_of_read hread
  exact ⟨payload, hpayload, texts, hwire, hreads.imp fun _ _ => CandleTexts.Reads.weighs⟩

/-- The prices and volumes of an event, and those of the market data for it, are worth what their
texts spell exactly where decimals can be worth that. -/
theorem event_weighs (h : p.event = .ok event) :
    ∃ payload, Spells (octets p.payload) payload ∧ event.Weighs payload := by
  cases event_eq_ok_iff.1 h with
  | book _ hread =>
    obtain ⟨payload, hpayload, hweighs⟩ := exists_weighsBook hread
    exact ⟨payload, hpayload, hweighs, fun table => ⟨_, rfl, by rw [update_eq], by rw [update_eq]⟩⟩
  | candles _ _ hread _ =>
    obtain ⟨payload, hpayload, hweighs⟩ := exists_weighsCandles hread
    refine ⟨payload, hpayload, hweighs, fun table data hdata => ?_⟩
    obtain ⟨bars, hbars, hconverts⟩ := IntervalTable.marketData_eq_ok_iff.1 hdata
    exact ⟨bars, hbars, hconverts.imp fun _ _ => samePrices_of_converts⟩
  | orders _ hread =>
    obtain ⟨payload, hpayload, _⟩ := (decode_eq_ok_iff OrderReport.goesByContent.list.sound).1 hread
    exact ⟨payload, hpayload, trivial⟩
  | wallets _ hread =>
    obtain ⟨payload, hpayload, _⟩ := (decode_eq_ok_iff Wallet.goesByContent.list.sound).1 hread
    exact ⟨payload, hpayload, trivial⟩

/-- The push of an order book with one bid. -/
def ofBid (price volume : String) : Push where
  topic := "orderbook.1.BTCUSDT"
  kind := .snapshot
  timestamp := 0
  payload := textOf (ofPairs [
    ("s", ofString "BTCUSDT"),
    ("b", ofList [ofList [ofString price, ofString volume]]),
    ("a", ofList []),
    ("u", ofNat 1),
    ("seq", ofNat 1)]).text

/-- The event with one bid. -/
def bidEvent (bid : PriceLevel) : Event := .book ⟨⟨"BTCUSDT", [bid], [], 1, 1⟩, .snapshot⟩

/-- A bid in a notation with sign, separators and powers of ten. -/
def oddBid : PriceLevel :=
  ⟨⟨false, 50, 3, by decide, by decide⟩, ⟨true, 12000, 0, by decide, Nat.zero_le maxScale⟩⟩

theorem event_ofBid_odd : (ofBid "+.5_0e-1" "-1_2.E3").event = .ok (bidEvent oddBid) := by
  decide +kernel

theorem event_weighs_odd :
    ∃ payload, Spells (octets (ofBid "+.5_0e-1" "-1_2.E3").payload) payload ∧
      (bidEvent oddBid).Weighs payload ∧
      oddBid.price.worth = Decimal.spelled "+.5_0e-1" ∧ Decimal.spelled "+.5_0e-1" = 1 / 20 ∧
      oddBid.volume.worth = Decimal.spelled "-1_2.E3" ∧ Decimal.spelled "-1_2.E3" = -12000 := by
  obtain ⟨payload, hpayload, hweighs⟩ := event_weighs event_ofBid_odd
  refine ⟨payload, hpayload, hweighs, ?_⟩
  decide +kernel

/-- A price that fits although its base does not, and a volume that does not fit. -/
def lossyPush : Push := ofBid "0.00000000000000000000000000001e10" "0.00000000000000000000000000005"

/-- What is read of them: nothing is left of the price, and the volume is doubled. -/
def lossyBid : PriceLevel :=
  ⟨⟨false, 0, 18, Decimal.zero.mantissa_lt, by decide⟩,
    ⟨false, 1, 28, by decide, Nat.le_refl maxScale⟩⟩

/-- Texts that decimals cannot be worth are accepted, as is one that loses its worth on the way, and
market data has what is left of them. -/
theorem event_loses_worth :
    lossyPush.event = .ok (bidEvent lossyBid) ∧
      (∀ table, ∃ update, IntervalTable.marketData table (bidEvent lossyBid) =
        .ok [.book update] ∧ update.book.bids = [lossyBid]) ∧
      Decimal.IsRepresentable (Decimal.spelled "0.00000000000000000000000000001e10") ∧
      lossyBid.price.worth ≠ Decimal.spelled "0.00000000000000000000000000001e10" ∧
      ¬Decimal.IsRepresentable (Decimal.spelled "0.00000000000000000000000000005") ∧
      lossyBid.volume.worth ≠ Decimal.spelled "0.00000000000000000000000000005" := by
  have hread : Decimal.read "0.00000000000000000000000000005" = .ok lossyBid.volume := by
    decide +kernel
  have hne : lossyBid.volume.worth ≠ Decimal.spelled "0.00000000000000000000000000005" := by
    decide +kernel
  have hbase : Decimal.spelledBase (Decimal.baseOf "0.00000000000000000000000000005") =
      Decimal.spelled "0.00000000000000000000000000005" := by
    decide +kernel
  refine ⟨by decide +kernel, fun table => ⟨_, rfl, by rw [update_eq]⟩,
    ⟨⟨false, 1, 19, by decide, by decide⟩, by decide +kernel⟩, by decide +kernel, fun hrep => ?_,
    hne⟩
  refine hne ((Decimal.worth_eq_spelled_iff hread).2 ⟨?_, hrep⟩)
  rw [hbase]
  exact hrep

end Push

end MarketFeed
