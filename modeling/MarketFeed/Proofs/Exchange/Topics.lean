import MarketFeed.Exchange.Feed
import MarketFeed.Proofs.Exchange.Push
import MarketFeed.Proofs.Market.Timeframes
import MarketFeed.Proofs.Text.Digits

/-!
# Topics and their symbols

Joining parts and splitting a topic undo each other (`Topic.Joins`, `Push.Splits`), and a push has a
symbol exactly if its topic has three segments.  So the topic of a subscription tells what is
subscribed to (`IntervalTable.Names`), and no two subscriptions have one topic where no code is
repeated or has a separator (`IntervalTable.eq_of_topic`).
-/

namespace MarketFeed

/-! ### The symbol of a push -/

namespace Push

variable {p : Push}

theorem symbol_eq_ok_iff_segments {symbol : String} :
    p.symbol = .ok symbol ↔ ∃ a b, Topic.segments p.topic = [a, b, symbol] :=
  symbol_eq_ok_iff.trans Topic.symbol?_eq_some_iff_segments

theorem exists_symbol_iff :
    (∃ symbol, p.symbol = .ok symbol) ↔ (Topic.segments p.topic).length = 3 := by
  simp only [symbol_eq_ok_iff_segments, List.length_eq_three]
  constructor
  · rintro ⟨symbol, a, b, h⟩
    exact ⟨a, b, symbol, h⟩
  · rintro ⟨a, b, symbol, h⟩
    exact ⟨symbol, a, b, h⟩

/-- There is no symbol exactly if there are not three segments. -/
theorem symbol_eq_error_iff_length {e : FeedError} : p.symbol = .error e ↔
    (Topic.segments p.topic).length ≠ 3 ∧ e = .topicFormat p.topic := by
  rw [symbol_eq_error_iff, ne_eq, ← exists_symbol_iff, not_exists,
    Option.eq_none_iff_forall_ne_some]
  exact and_congr_left' (forall_congr' fun _ => not_congr symbol_eq_ok_iff.symm)

/-- The segments of a topic with a symbol are its type, one between, and the symbol. -/
theorem segments_of_symbol {symbol : String} (h : p.symbol = .ok symbol) :
    ∃ middle, Topic.segments p.topic = [p.topicType.text, middle, symbol] := by
  obtain ⟨a, middle, hsegments⟩ := symbol_eq_ok_iff_segments.1 h
  have hfirst := Topic.head?_segments p.topic
  rw [hsegments, List.head?_cons, Option.some.injEq] at hfirst
  exact ⟨middle, by rw [text_topicType, ← hfirst, hsegments]⟩

/-- The last of three joined parts is the symbol if there is no separator in any of them, and there
is no symbol otherwise. -/
theorem symbol_of_join {a b c : String} (ha : '.' ∉ a.toList) (h : p.topic = Topic.join [a, b, c]) :
    ('.' ∉ b.toList ∧ '.' ∉ c.toList → p.symbol = .ok c) ∧
      ('.' ∈ b.toList ∨ '.' ∈ c.toList → p.symbol = .error (.topicFormat p.topic)) := by
  constructor
  · rintro ⟨hb, hc⟩
    refine symbol_eq_ok_iff_segments.2 ⟨a, b, ?_⟩
    rw [h, Topic.segments_join_of_notMem]
    simpa using ⟨ha, hb, hc⟩
  · intro hbc
    refine symbol_eq_error_iff_length.2 ⟨?_, rfl⟩
    have hcount : 0 < b.toList.count '.' + c.toList.count '.' := by
      simpa [Nat.add_pos_iff_pos_or_pos, List.count_pos_iff] using hbc
    rw [h, Topic.segments_join]
    simp only [List.flatMap_cons, List.flatMap_nil, List.length_append, Topic.length_segments,
      List.length_nil, Topic.separator]
    omega

end Push

/-! ### Joining and splitting -/

/-- What splitting makes of joined parts. -/
structure Topic.Joins (part : String) (parts : List String) : Prop where
  segments : segments (join (part :: parts)) = (part :: parts).flatMap segments
  type : type (join (part :: parts)) = TopicType.ofText (first part)
  recovers : (∀ q ∈ part :: parts, '.' ∉ q.toList) → Topic.segments (join (part :: parts)) =
    part :: parts
  symbol : (∀ q ∈ part :: parts, '.' ∉ q.toList) → ∀ p : Push, p.topic = join (part :: parts) →
    ∀ symbol, p.symbol = .ok symbol ↔ ∃ a b, part :: parts = [a, b, symbol]

/-- What joining makes of the segments of a topic. -/
structure Push.Splits (p : Push) : Prop where
  segments : ∀ parts, Topic.segments p.topic = parts ↔
    parts ≠ [] ∧ Topic.join parts = p.topic ∧ ∀ part ∈ parts, '.' ∉ part.toList
  succeeds : (∃ symbol, p.symbol = .ok symbol) ↔ p.topic.toList.count '.' = 2
  rejoins : ∀ symbol, p.symbol = .ok symbol → ∃ middle,
    Topic.segments p.topic = [p.topicType.text, middle, symbol] ∧
      Topic.join [p.topicType.text, middle, symbol] = p.topic
  fails : ∀ e, p.symbol = .error e ↔
    p.topic.toList.count '.' ≠ 2 ∧ e = .topicFormat p.topic

theorem Topic.joins (part : String) (parts : List String) : Topic.Joins part parts where
  segments := segments_join part parts
  type := type_join part parts
  recovers := segments_join_of_notMem
  symbol h p htopic symbol := by
    rw [Push.symbol_eq_ok_iff_segments, htopic, segments_join_of_notMem h]

theorem Push.splits (p : Push) : p.Splits where
  segments _ := Topic.segments_eq_iff
  succeeds := by
    rw [exists_symbol_iff, Topic.length_segments]
    exact Nat.add_right_cancel_iff
  rejoins symbol h := by
    obtain ⟨middle, hsegments⟩ := segments_of_symbol h
    exact ⟨middle, hsegments, hsegments ▸ Topic.join_segments p.topic⟩
  fails e := by
    rw [symbol_eq_error_iff_length, Topic.length_segments]
    exact and_congr_left' (not_congr Nat.add_right_cancel_iff)

/-- Splitting a topic gives the segments of the parts that were joined to it, and joining the
segments gives the topic; a push has a symbol exactly if its topic has two separators. -/
theorem Topic.join_split (part : String) (parts : List String) (p : Push) :
    Topic.Joins part parts ∧ p.Splits :=
  ⟨Topic.joins part parts, p.splits⟩

/-- A topic of an unknown type with an empty segment has a symbol, and one whose last part has a
separator has none. -/
theorem Topic.join_split_trade :
    (Push.mk "publicTrade..BTCUSDT" .delta 0 "").symbol = .ok "BTCUSDT" ∧
      (Push.mk "kline.5.BTC.USDT" .delta 0 "").symbol =
        .error (.topicFormat "kline.5.BTC.USDT") := by
  constructor
  · have hjoins := (join_split "publicTrade" ["", "BTCUSDT"] ⟨"", .delta, 0, ""⟩).1
    exact (hjoins.symbol (by decide) _ (by decide) _).2 ⟨_, _, rfl⟩
  · have hsplits := (join_split "" [] ⟨"kline.5.BTC.USDT", .delta, 0, ""⟩).2
    exact (hsplits.fails _).2 ⟨by decide, rfl⟩

/-! ### Topics of subscriptions -/

/-- The type of the topic of a subscription. -/
def Subscription.topicType : Subscription → TopicType
  | candles _ _ => .kline
  | orderBook _ _ => .orderBook
  | orders => .order
  | wallet => .wallet

theorem Subscription.isKnown_topicType (s : Subscription) : s.topicType.isKnown = true := by
  cases s <;> rfl

namespace IntervalTable

variable {table : IntervalTable} {s s' : Subscription} {topic : String}

/-- The topics of subscriptions. -/
inductive IsTopic (table : IntervalTable) : Subscription → String → Prop
  | candles {symbol : String} {timeframe : Timeframe} {code : String}
    (hcode : table.code? timeframe = some code) :
    IsTopic table (.candles symbol timeframe) (Topic.join ["kline", code, symbol])
  | orderBook {symbol : String} {depth : UInt32} :
    IsTopic table (.orderBook symbol depth)
      (Topic.join ["orderbook", Text.ofNat depth.toNat, symbol])
  | orders : IsTopic table .orders "order"
  | wallet : IsTopic table .wallet "wallet"

theorem isTopic_of_topic (h : table.topic s = .ok topic) : table.IsTopic s topic := by
  cases s with
  | candles symbol timeframe =>
    obtain ⟨code, hcode, rfl⟩ := topic_candles_eq_ok_iff.1 h
    exact .candles hcode
  | orderBook symbol depth =>
    obtain rfl := Except.ok.inj h
    exact .orderBook
  | orders =>
    obtain rfl := Except.ok.inj h
    exact .orders
  | wallet =>
    obtain rfl := Except.ok.inj h
    exact .wallet

/-- Only candles may have no topic, for want of a code for their timeframe. -/
theorem topic_eq_error_iff {e : FeedError} : table.topic s = .error e ↔
    ∃ symbol timeframe, s = .candles symbol timeframe ∧
      (∀ code, (code, timeframe) ∉ table.entries) ∧ e = .unsupportedInterval timeframe := by
  constructor
  · intro h
    cases s with
    | candles symbol timeframe =>
      cases hcode : table.code? timeframe with
      | some code => simp [topic, hcode] at h
      | none =>
        simp only [topic, hcode, Except.error.injEq] at h
        exact ⟨symbol, timeframe, rfl, code?_eq_none_iff.1 hcode, h.symm⟩
    | _ => cases h
  · rintro ⟨symbol, timeframe, rfl, hcodes, rfl⟩
    simp only [topic, code?_eq_none_iff.2 hcodes]

theorem IsTopic.type_eq (h : table.IsTopic s topic) : Topic.type topic = s.topicType := by
  cases h with
  | candles => exact Topic.type_join _ _
  | orderBook => exact Topic.type_join _ _
  | orders => rfl
  | wallet => rfl

/-- Whether there is a separator in the symbol of a subscription or in the interval code for it. -/
def HasSeparator (table : IntervalTable) : Subscription → Prop
  | .candles symbol timeframe => '.' ∈ symbol.toList ∨
    ∃ code, table.code? timeframe = some code ∧ '.' ∈ code.toList
  | .orderBook symbol _ => '.' ∈ symbol.toList
  | .orders | .wallet => False

/-- The topic of a market stream has the symbol as the last of three parts, and a separator in it
is one in the symbol or the part before it. -/
theorem IsTopic.exists_parts (h : table.IsTopic s topic) {symbol : String}
    (hsymbol : s.symbol = some symbol) : ∃ middle,
      topic = Topic.join [s.topicType.text, middle, symbol] ∧
        (table.HasSeparator s ↔ '.' ∈ middle.toList ∨ '.' ∈ symbol.toList) := by
  cases h with
  | candles hcode =>
    obtain rfl := Option.some.inj hsymbol
    refine ⟨_, rfl, ?_⟩
    simp only [HasSeparator, hcode, Option.some.injEq, exists_eq_left']
    exact or_comm
  | orderBook =>
    obtain rfl := Option.some.inj hsymbol
    refine ⟨_, rfl, ?_⟩
    simp only [HasSeparator, Text.point_notMem_ofNat, false_or]
  | orders => cases hsymbol
  | wallet => cases hsymbol

/-! ### One topic, one subscription -/

/-- A topic has only one subscription where no code is repeated and none has a separator. -/
theorem eq_of_topic (hcodes : (table.entries.map Prod.fst).Nodup)
    (hplain : ∀ e ∈ table.entries, '.' ∉ e.1.toList) (h : table.IsTopic s topic)
    (h' : table.IsTopic s' topic) : s = s' := by
  have htype : s.topicType = s'.topicType := h.type_eq.symm.trans h'.type_eq
  have hkline : '.' ∉ "kline".toList := Topic.notMem_text (t := .kline) rfl
  have hbook : '.' ∉ "orderbook".toList := Topic.notMem_text (t := .orderBook) rfl
  generalize htopic : topic = topic' at h'
  cases h with
  | @candles symbol timeframe code hcode =>
    cases h' with
    | @candles symbol' timeframe' code' hcode' =>
      obtain ⟨-, rfl, rfl⟩ := Topic.join_three_inj hkline (hplain _ (mem_of_code? hcode)) hkline
        (hplain _ (mem_of_code? hcode')) htopic
      rw [timeframe_eq_of_code? hcodes hcode hcode']
    | _ => cases htype
  | @orderBook symbol depth =>
    cases h' with
    | @orderBook symbol' depth' =>
      obtain ⟨-, hdepth, rfl⟩ := Topic.join_three_inj hbook (Text.point_notMem_ofNat _) hbook
        (Text.point_notMem_ofNat _) htopic
      rw [UInt32.toNat_inj.1 (Text.ofNat_injective hdepth)]
    | _ => cases htype
  | orders =>
    cases h' with
    | orders => rfl
    | _ => cases htype
  | wallet =>
    cases h' with
    | wallet => rfl
    | _ => cases htype

theorem exists_topic_standard (s : Subscription) : ∃ topic, standard.topic s = .ok topic := by
  cases htopic : standard.topic s with
  | ok topic => exact ⟨topic, rfl⟩
  | error e =>
    obtain ⟨_, timeframe, -, hnone, -⟩ := topic_eq_error_iff.1 htopic
    have hsome : (standard.code? timeframe).isSome = true := by cases timeframe <;> rfl
    rw [code?_eq_none_iff.2 hnone] at hsome
    cases hsome

/-- What the topic of a subscription tells of it. -/
structure Names (table : IntervalTable) (s : Subscription) : Prop where
  fails : ∀ e, table.topic s = .error e ↔ ∃ symbol timeframe, s = .candles symbol timeframe ∧
    (∀ code, (code, timeframe) ∉ table.entries) ∧ e = .unsupportedInterval timeframe
  type : ∀ topic, table.topic s = .ok topic → Topic.type topic = s.topicType
  symbol : ∀ topic, table.topic s = .ok topic → ∀ symbol, s.symbol = some symbol →
    ∀ p : Push, p.topic = topic →
      (p.symbol = .ok symbol ↔ ¬table.HasSeparator s) ∧
        (table.HasSeparator s → p.symbol = .error (.topicFormat topic))

theorem names (table : IntervalTable) (s : Subscription) : table.Names s where
  fails _ := topic_eq_error_iff
  type _ h := (isTopic_of_topic h).type_eq
  symbol topic h symbol hsymbol p htopic := by
    obtain ⟨middle, hparts, hseparator⟩ := (isTopic_of_topic h).exists_parts hsymbol
    obtain ⟨hplain, hdotted⟩ := Push.symbol_of_join (Topic.notMem_text s.isKnown_topicType)
      (htopic.trans hparts)
    rw [htopic] at hdotted
    rw [hseparator]
    refine ⟨⟨fun hok hor => ?_, fun hnone => hplain (not_or.1 hnone)⟩, hdotted⟩
    rw [hdotted hor] at hok
    cases hok

/-- With any table a topic tells the kind of its subscription, and its symbol if there is no
separator in what it is made from; with the standard table every subscription has a topic of its
own. -/
theorem topic_identifies :
    (∀ (table : IntervalTable) (s : Subscription), table.Names s) ∧
      Function.Injective standard.topic := by
  refine ⟨names, fun s s' h => ?_⟩
  obtain ⟨topic, htopic⟩ := exists_topic_standard s
  exact eq_of_topic (by decide) (by decide) (isTopic_of_topic htopic)
    (isTopic_of_topic (h.symm.trans htopic))

/-- The symbol of a topic is not found where the interval code has a separator, nor is there a topic
for a timeframe without a code. -/
theorem topic_identifies_dotted :
    (Push.mk "kline.1.5.BTCUSDT" .snapshot 0 "").symbol =
        .error (.topicFormat "kline.1.5.BTCUSDT") ∧
      IntervalTable.topic ⟨[("1.5", .m1)]⟩ (.candles "BTCUSDT" .w1) =
        .error (.unsupportedInterval .w1) := by
  have hnames := topic_identifies.1 ⟨[("1.5", .m1)]⟩
  constructor
  · exact ((hnames (.candles "BTCUSDT" .m1)).symbol "kline.1.5.BTCUSDT" rfl "BTCUSDT" rfl _ rfl).2
      (.inr ⟨"1.5", rfl, by decide⟩)
  · exact ((hnames (.candles "BTCUSDT" .w1)).fails _).2 ⟨"BTCUSDT", .w1, rfl, by simp, rfl⟩

end IntervalTable

end MarketFeed
