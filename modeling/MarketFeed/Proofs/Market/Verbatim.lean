import MarketFeed.Proofs.Decimal.Canonical
import MarketFeed.Proofs.Exchange.Frame
import MarketFeed.Proofs.Exchange.Push
import MarketFeed.Proofs.Market.Conversion

/-!
# From the wire to market data, unchanged

The levels of an order book and the prices of candles have texts on the wire (`wireLevels?`,
`wireCandles?`) and in the object that market data is written as (`writtenLevels?`,
`writtenCandle?`).  Where they are in canonical form the texts are the same, in the same order.
-/

namespace MarketFeed

open Json Json.Node

/-- The texts of a level. -/
structure LevelTexts where
  price : String
  volume : String

/-- The texts of a candle. -/
structure CandleTexts where
  opening : String
  closing : String
  high : String
  low : String
  volume : String
  turnover : String

/-- Both texts of a level are in canonical form. -/
structure LevelTexts.IsCanonical (l : LevelTexts) : Prop where
  price : Decimal.IsCanonical l.price
  volume : Decimal.IsCanonical l.volume

/-- All texts of a candle are in canonical form. -/
structure CandleTexts.IsCanonical (c : CandleTexts) : Prop where
  opening : Decimal.IsCanonical c.opening
  closing : Decimal.IsCanonical c.closing
  high : Decimal.IsCanonical c.high
  low : Decimal.IsCanonical c.low
  volume : Decimal.IsCanonical c.volume
  turnover : Decimal.IsCanonical c.turnover

/-! ### Where the texts stand -/

/-- The texts of a level on the wire: an array of two strings. -/
def wireLevel? (t : Node) : Option LevelTexts :=
  match t.list? with
  | some [price, volume] => do return { price := ← price.string?, volume := ← volume.string? }
  | _ => none

/-- The texts of levels on the wire. -/
def wireLevels? (t : Node) : Option (List LevelTexts) := t.list?.bind fun ts => ts.mapM wireLevel?

/-- The texts of a candle on the wire. -/
def wireCandle? (t : Node) : Option CandleTexts := do
  return {
    opening := ← (t.field? ["open"] 3).bind string?
    closing := ← (t.field? ["close"] 4).bind string?
    high := ← (t.field? ["high"] 5).bind string?
    low := ← (t.field? ["low"] 6).bind string?
    volume := ← (t.field? ["volume"] 7).bind string?
    turnover := ← (t.field? ["turnover"] 8).bind string? }

/-- The texts of candles on the wire. -/
def wireCandles? (t : Node) : Option (List CandleTexts) :=
  t.list?.bind fun ts => ts.mapM wireCandle?

/-- The texts of a level of market data. -/
def writtenLevel? (t : Node) : Option LevelTexts := do
  return {
    price := ← (t.get? "price").bind string?
    volume := ← (t.get? "volume").bind string? }

/-- The texts of levels of market data. -/
def writtenLevels? (t : Node) : Option (List LevelTexts) :=
  t.list?.bind fun ts => ts.mapM writtenLevel?

/-- The texts of a bar of market data. -/
def writtenCandle? (t : Node) : Option CandleTexts := do
  return {
    opening := ← (t.get? "open").bind string?
    closing := ← (t.get? "close").bind string?
    high := ← (t.get? "high").bind string?
    low := ← (t.get? "low").bind string?
    volume := ← (t.get? "volume").bind string?
    turnover := ← (t.get? "quote_volume").bind string? }

/-- The order book of market data has the levels of the frame. -/
def CarriesBook (frame : Node) (data : List MarketData) : Prop :=
  ∃ payload b a bids asks update,
    frame.field? ["data"] 9 = some payload ∧ payload.field? ["b"] 1 = some b ∧
    payload.field? ["a"] 2 = some a ∧ wireLevels? b = some bids ∧ wireLevels? a = some asks ∧
    data = [.book update] ∧
    ((∀ l ∈ bids ++ asks, l.IsCanonical) →
      ∃ book, ((MarketData.book update).write.get? "OrderBook").bind (·.get? "book") = some book ∧
        (book.get? "bids").bind writtenLevels? = some bids ∧
        (book.get? "asks").bind writtenLevels? = some asks)

/-- The bars of market data have the prices of the candles of the frame. -/
def CarriesCandles (frame : Node) (data : List MarketData) : Prop :=
  ∃ payload candles,
    frame.field? ["data"] 9 = some payload ∧ wireCandles? payload = some candles ∧
    ((∀ c ∈ candles, c.IsCanonical) →
      data.mapM (fun d => (d.write.get? "Candle").bind writtenCandle?) = some candles)

/-! ### Lists -/

/-- A list that is read has the texts of its members, if each of them has. -/
theorem texts_of_list {α τ : Type} {codec : Codec α} {wire? : Node → Option τ}
    {reads : τ → α → Prop}
    (hmember : ∀ levels v x, codec.read levels v = .ok x → ∃ l, wire? v = some l ∧ reads l x)
    {levels : Nat} {t : Node} {xs : List α} (h : (Codec.list codec).read levels t = .ok xs) :
    ∃ ls, (t.list?.bind fun ts => ts.mapM wire?) = some ls ∧ List.Forall₂ reads ls xs := by
  obtain ⟨levels', _, values, hvalues, hread⟩ := Codec.list_read h
  obtain ⟨ls, hls, hreads⟩ := Outcome.exists_between (hmember levels') hread
  refine ⟨ls, ?_, hreads⟩
  rw [hvalues]
  exact Outcome.optionMapM_eq_some_iff.2 hls

/-! ### Levels -/

/-- A level has been read from its texts. -/
structure LevelTexts.Reads (l : LevelTexts) (level : PriceLevel) : Prop where
  price : Decimal.read l.price = .ok level.price
  volume : Decimal.read l.volume = .ok level.volume

theorem eq_text_of_read {s : String} {d : Decimal} (hs : Decimal.IsCanonical s)
    (h : Decimal.read s = .ok d) : d.text = s := by
  obtain ⟨d', hread, htext⟩ := Decimal.text_of_canonical hs
  rw [h] at hread
  obtain rfl := Except.ok.inj hread
  exact htext

theorem wireLevel_of_read {levels : Nat} {t : Node} {level : PriceLevel}
    (h : PriceLevel.codec.read levels t = .ok level) :
    ∃ l, wireLevel? t = some l ∧ l.Reads level := by
  change PriceLevel.read levels t = .ok level at h
  rw [PriceLevel.read.eq_def] at h
  split at h
  · cases h
  · next levels es ending =>
    obtain ⟨values, hvalues, rfl⟩ := Outcome.map_eq_ok_iff.1 h
    have hrequired : ∀ f ∈ PriceLevel.fields, f.absence.array? = none := by
      simp [PriceLevel.fields, Field.required, Absence.array?]
    obtain ⟨e₁, e₂, rfl⟩ := List.length_eq_two.1 (length_of_ofElements hrequired hvalues)
    obtain ⟨price, hprice, hvalues⟩ := Outcome.bind_eq_ok_iff.1 hvalues
    obtain ⟨rest, hrest, hvalues⟩ := Outcome.bind_eq_ok_iff.1 hvalues
    obtain ⟨volume, hvolume, hrest⟩ := Outcome.bind_eq_ok_iff.1 hrest
    obtain ⟨_, _, hrest⟩ := Outcome.bind_eq_ok_iff.1 hrest
    cases hrest
    cases hvalues
    obtain ⟨s₁, hs₁, hread₁⟩ := Codec.decimal_read_iff.1 hprice
    obtain ⟨s₂, hs₂, hread₂⟩ := Codec.decimal_read_iff.1 hvolume
    refine ⟨⟨s₁, s₂⟩, ?_, hread₁, hread₂⟩
    simp [wireLevel?, list?, hs₁, hs₂]
  · cases h

theorem wireLevels_of_read {levels : Nat} {t : Node} {xs : List PriceLevel}
    (h : (Codec.list PriceLevel.codec).read levels t = .ok xs) :
    ∃ ls, wireLevels? t = some ls ∧ List.Forall₂ LevelTexts.Reads ls xs :=
  texts_of_list (fun _ _ _ => wireLevel_of_read) h

theorem writtenLevel?_write {l : LevelTexts} {level : PriceLevel} (hl : l.IsCanonical)
    (h : l.Reads level) : writtenLevel? level.write = some l := by
  have hprice := eq_text_of_read hl.price h.price
  have hvolume := eq_text_of_read hl.volume h.volume
  simp [writtenLevel?, PriceLevel.write, get?_ofPairs, hprice, hvolume]

/-- Levels that have been read from texts in canonical form are written with the same texts. -/
theorem writtenLevels?_write {ls : List LevelTexts} {xs : List PriceLevel}
    (hls : ∀ l ∈ ls, l.IsCanonical) (h : List.Forall₂ LevelTexts.Reads ls xs) :
    writtenLevels? (ofList (xs.map PriceLevel.write)) = some ls := by
  rw [writtenLevels?, list?_ofList, Option.bind_some, Outcome.optionMapM_eq_some_iff,
    List.forall₂_map_left_iff]
  induction h with
  | nil => exact List.Forall₂.nil
  | cons hreads _ ih =>
    obtain ⟨hl, hls⟩ := List.forall_mem_cons.1 hls
    exact List.Forall₂.cons (writtenLevel?_write hl hreads) (ih hls)

/-! ### Candles -/

/-- A candle has been read from its texts. -/
structure CandleTexts.Reads (c : CandleTexts) (candle : Candle) : Prop where
  opening : Decimal.read c.opening = .ok candle.opening
  closing : Decimal.read c.closing = .ok candle.closing
  high : Decimal.read c.high = .ok candle.high
  low : Decimal.read c.low = .ok candle.low
  volume : Decimal.read c.volume = .ok candle.volume
  turnover : Decimal.read c.turnover = .ok candle.turnover

/-- A bar has the prices of a candle. -/
structure SamePrices (candle : Candle) (bar : Bar) : Prop where
  opening : bar.opening = candle.opening
  closing : bar.closing = candle.closing
  high : bar.high = candle.high
  low : bar.low = candle.low
  volume : bar.volume = candle.volume
  quoteVolume : bar.quoteVolume = candle.turnover

theorem text_of_required {levels : Nat} {label key : String} {t : Node} {position : Nat}
    {d : Decimal}
    (h : (Field.required label key Codec.decimal).Holds levels (t.fieldValues [key] position) d) :
    ∃ s, (t.field? [key] position).bind string? = some s ∧ Decimal.read s = .ok d := by
  obtain ⟨v, hv, hread⟩ := field?_of_required h
  obtain ⟨s, hs, hd⟩ := Codec.decimal_read_iff.1 hread
  exact ⟨s, by rw [hv, Option.bind_some, hs], hd⟩

theorem wireCandle_of_read {levels : Nat} {t : Node} {candle : Candle}
    (h : Candle.codec.read levels t = .ok candle) :
    ∃ c, wireCandle? t = some c ∧ c.Reads candle := by
  obtain ⟨levels', xs, _, hxs, rfl⟩ := Record.hold_of_read Candle.nodup_keys h
  obtain ⟨_, _, _, hopening, hclosing, hhigh, hlow, hvolume, hturnover, _⟩ := hxs
  obtain ⟨opening, ho, hopening⟩ := text_of_required hopening
  obtain ⟨closing, hc, hclosing⟩ := text_of_required hclosing
  obtain ⟨high, hh, hhigh⟩ := text_of_required hhigh
  obtain ⟨low, hl, hlow⟩ := text_of_required hlow
  obtain ⟨volume, hv, hvolume⟩ := text_of_required hvolume
  obtain ⟨turnover, ht, hturnover⟩ := text_of_required hturnover
  refine ⟨⟨opening, closing, high, low, volume, turnover⟩, ?_, hopening, hclosing, hhigh, hlow,
    hvolume, hturnover⟩
  rw [wireCandle?, ho, hc, hh, hl, hv, ht]
  rfl

theorem wireCandles_of_read {levels : Nat} {t : Node} {xs : List Candle}
    (h : (Codec.list Candle.codec).read levels t = .ok xs) :
    ∃ cs, wireCandles? t = some cs ∧ List.Forall₂ CandleTexts.Reads cs xs :=
  texts_of_list (fun _ _ _ => wireCandle_of_read) h

theorem samePrices_of_converts {table : IntervalTable} {symbol : String} {candle : Candle}
    {bar : Bar} (h : table.Converts symbol candle bar) : SamePrices candle bar :=
  ⟨h.opening, h.closing, h.high, h.low, h.volume, h.quoteVolume⟩

theorem writtenCandle?_write {c : CandleTexts} {candle : Candle} {bar : Bar}
    (hc : c.IsCanonical) (h : c.Reads candle) (hbar : SamePrices candle bar) :
    ((MarketData.bar bar).write.get? "Candle").bind writtenCandle? = some c := by
  have hopening := eq_text_of_read hc.opening (hbar.opening ▸ h.opening)
  have hclosing := eq_text_of_read hc.closing (hbar.closing ▸ h.closing)
  have hhigh := eq_text_of_read hc.high (hbar.high ▸ h.high)
  have hlow := eq_text_of_read hc.low (hbar.low ▸ h.low)
  have hvolume := eq_text_of_read hc.volume (hbar.volume ▸ h.volume)
  have hturnover := eq_text_of_read hc.turnover (hbar.quoteVolume ▸ h.turnover)
  simp [MarketData.write, writtenCandle?, Bar.write, get?_ofPairs, hopening, hclosing, hhigh, hlow,
    hvolume, hturnover]

/-! ### Frames -/

theorem book_of_event {p : Push} {event : Event} (htopic : p.topicType = .orderBook)
    (h : p.event = .ok event) :
    ∃ payload, Json.decode BookPayload.codec (octets p.payload) = .ok payload ∧
      event = .book { toBookPayload := payload, kind := p.kind } := by
  cases Push.event_eq_ok_iff.1 h with
  | book _ hread => exact ⟨_, hread, rfl⟩
  | candles htype | orders htype | wallets htype =>
    rw [htopic] at htype
    cases htype

theorem candles_of_event {p : Push} {event : Event} (htopic : p.topicType = .kline)
    (h : p.event = .ok event) :
    ∃ symbol candles, Json.decode (.list Candle.codec) (octets p.payload) = .ok candles ∧
      event = .candles { symbol, kind := p.kind, candles } := by
  cases Push.event_eq_ok_iff.1 h with
  | candles _ _ hread _ => exact ⟨_, _, hread, rfl⟩
  | book htype | orders htype | wallets htype =>
    rw [htopic] at htype
    cases htype

/-- The levels of an order book that is read are those on the wire. -/
theorem wireLevels_of_book {levels : Nat} {t : Node} {book : BookPayload}
    (h : BookPayload.codec.read (levels + 1) t = .ok book) :
    ∃ b a bids asks, t.field? ["b"] 1 = some b ∧ t.field? ["a"] 2 = some a ∧
      wireLevels? b = some bids ∧ wireLevels? a = some asks ∧
      List.Forall₂ LevelTexts.Reads bids book.bids ∧
      List.Forall₂ LevelTexts.Reads asks book.asks := by
  obtain ⟨_, ⟨b, hb, hbids⟩, ⟨a, ha, hasks⟩, _⟩ := BookPayload.isOf_of_read h
  obtain ⟨bids, hwireBids, hreadBids⟩ := wireLevels_of_read hbids
  obtain ⟨asks, hwireAsks, hreadAsks⟩ := wireLevels_of_read hasks
  exact ⟨b, a, bids, asks, hb, ha, hwireBids, hwireAsks, hreadBids, hreadAsks⟩

theorem update_eq (p : BookPush) : IntervalTable.update p =
    ⟨⟨p.symbol, p.bids, p.asks⟩, p.replaces, p.updateId, some p.sequence⟩ := by
  unfold IntervalTable.update
  cases p.replaces <;> rfl

theorem get?_book (p : BookPush) :
    ((MarketData.book (IntervalTable.update p)).write.get? "OrderBook").bind (·.get? "book") =
      some (OrderBook.write ⟨p.symbol, p.bids, p.asks⟩) := by
  simp [MarketData.write, BookUpdate.write, get?_ofPairs, update_eq]

theorem carriesBook_of_event {table : IntervalTable} {p : Push} {frame payload : Node}
    {event : Event} {data : List MarketData} (hpayload : frame.field? ["data"] 9 = some payload)
    (hspells : Spells (octets p.payload) payload) (htopic : p.topicType = .orderBook)
    (hevent : p.event = .ok event) (hdata : table.marketData event = .ok data) :
    CarriesBook frame data := by
  obtain ⟨book, hdecode, rfl⟩ := book_of_event htopic hevent
  cases hdata
  rw [decode_of_spells BookPayload.codec hspells] at hdecode
  obtain ⟨b, a, bids, asks, hb, ha, hwireBids, hwireAsks, hreadBids, hreadAsks⟩ :=
    wireLevels_of_book hdecode
  refine ⟨payload, b, a, bids, asks, _, hpayload, hb, ha, hwireBids, hwireAsks, rfl, ?_⟩
  intro hcanonical
  obtain ⟨hcanonicalBids, hcanonicalAsks⟩ := List.forall_mem_append.1 hcanonical
  refine ⟨_, get?_book _, ?_, ?_⟩
  · simp [OrderBook.write, get?_ofPairs, writtenLevels?_write hcanonicalBids hreadBids]
  · simp [OrderBook.write, get?_ofPairs, writtenLevels?_write hcanonicalAsks hreadAsks]

/-- Bars are written with the texts from which their candles have been read. -/
theorem writtenCandles_of_bars {table : IntervalTable} {symbol : String} {cs : List CandleTexts}
    {candles : List Candle} {data : List MarketData} (hcs : ∀ c ∈ cs, c.IsCanonical)
    (hreads : List.Forall₂ CandleTexts.Reads cs candles)
    (hbars : List.Forall₂ (fun c d => (table.bar symbol c).map .bar = .ok d) candles data) :
    List.Forall₂ (fun d c => (d.write.get? "Candle").bind writtenCandle? = some c) data cs := by
  induction hreads generalizing data with
  | nil =>
    cases hbars
    exact List.Forall₂.nil
  | cons hread _ ih =>
    obtain ⟨hc, hcs⟩ := List.forall_mem_cons.1 hcs
    obtain ⟨d, ds, hd, hds, rfl⟩ := List.forall₂_cons_left_iff.1 hbars
    obtain ⟨bar, hbar, rfl⟩ := Outcome.map_eq_ok_iff.1 hd
    have hsame := samePrices_of_converts (IntervalTable.bar_eq_ok_iff.1 hbar)
    exact List.Forall₂.cons (writtenCandle?_write hc hread hsame) (ih hcs hds)

theorem carriesCandles_of_event {table : IntervalTable} {p : Push} {frame payload : Node}
    {event : Event} {data : List MarketData} (hpayload : frame.field? ["data"] 9 = some payload)
    (hspells : Spells (octets p.payload) payload) (htopic : p.topicType = .kline)
    (hevent : p.event = .ok event) (hdata : table.marketData event = .ok data) :
    CarriesCandles frame data := by
  obtain ⟨symbol, candles, hdecode, rfl⟩ := candles_of_event htopic hevent
  rw [decode_of_spells (.list Candle.codec) hspells] at hdecode
  obtain ⟨cs, hwire, hreads⟩ := wireCandles_of_read hdecode
  refine ⟨payload, cs, hpayload, hwire, fun hcanonical => ?_⟩
  rw [Outcome.optionMapM_eq_some_iff]
  exact writtenCandles_of_bars hcanonical hreads (Outcome.mapM_eq_ok_iff.1 hdata)

/-- The levels of an order book and the prices of candles have the texts of the frame, where these
are in canonical form. -/
theorem marketData_verbatim {table : IntervalTable} {raw : List UInt8} {p : Push} {event : Event}
    {data : List MarketData} (hpush : Envelope.decode raw = .ok (.push p))
    (hread : (table.feed.read raw).result = .ok event)
    (hdata : table.marketData event = .ok data) :
    ∃ frame, Spells raw frame ∧ (p.topicType = .orderBook → CarriesBook frame data) ∧
      (p.topicType = .kline → CarriesCandles frame data) := by
  have hevent : p.event = .ok event := by
    rw [← Event.ofFrame_of_push hpush, ← Event.result_read]
    exact hread
  obtain ⟨frame, payload, hspells, hpayload, hspellsPayload⟩ := Envelope.spells_payload hpush
  exact ⟨frame, hspells,
    fun htopic => carriesBook_of_event hpayload hspellsPayload htopic hevent hdata,
    fun htopic => carriesCandles_of_event hpayload hspellsPayload htopic hevent hdata⟩

/-- A frame that amends an order book: one bid without a volume. -/
def deltaFrame : Node :=
  ofPairs [
    ("topic", ofString "orderbook.1.BTCUSDT"),
    ("type", ofString "delta"),
    ("ts", ofNat 1672304484978),
    ("data", ofPairs [
      ("s", ofString "BTCUSDT"),
      ("b", ofList [ofList [ofString "16493.50", ofString "0.000"]]),
      ("a", ofList []),
      ("u", ofNat 18521288),
      ("seq", ofNat 7961638724)])]

theorem marketData_verbatim_delta :
    ∃ frame, Spells deltaFrame.text frame ∧
      CarriesBook frame [.book ⟨⟨"BTCUSDT", [⟨⟨false, 1649350, 2, by decide, by decide⟩,
        ⟨false, 0, 3, by decide, by decide⟩⟩], []⟩, false, 18521288, some 7961638724⟩] := by
  have hpush : Envelope.decode deltaFrame.text = .ok (.push ⟨"orderbook.1.BTCUSDT", .delta,
      1672304484978, ((deltaFrame.field? ["data"] 9).map fun v => textOf v.text).getD ""⟩) := by
    decide +kernel
  have hread : (IntervalTable.standard.feed.read deltaFrame.text).result =
      .ok (.book ⟨⟨"BTCUSDT", [⟨⟨false, 1649350, 2, by decide, by decide⟩,
        ⟨false, 0, 3, by decide, by decide⟩⟩], [], 18521288, 7961638724⟩, .delta⟩) := by
    decide +kernel
  obtain ⟨frame, hspells, hbook, _⟩ := marketData_verbatim hpush hread rfl
  exact ⟨frame, hspells, hbook (by decide +kernel)⟩

end MarketFeed
