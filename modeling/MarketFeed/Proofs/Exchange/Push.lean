import MarketFeed.Exchange.Event
import MarketFeed.Proofs.Json.View
import MarketFeed.Proofs.Topic

/-!
# What becomes of a push

A push yields an event of the kind that its topic calls for (`Push.Yields`), or it fails for its
topic or for its payload (`Push.Fails`).  These are all that reading a push can come to
(`Push.event_eq_ok_iff`, `Push.fails_of_event`).
-/

namespace MarketFeed

open Json Json.Node

/-! ### Keys of records

No two fields of a record of the exchange have a key in common, so each member of an object is for
one field at most.
-/

theorem BookPayload.nodup_keys : (record.fields.flatMap Field.keys).Nodup := by decide

theorem Candle.nodup_keys : (record.fields.flatMap Field.keys).Nodup := by decide

theorem CoinBalance.nodup_keys : (record.fields.flatMap Field.keys).Nodup := by decide

theorem Wallet.nodup_keys : (record.fields.flatMap Field.keys).Nodup := by decide

theorem Order.nodup_keys : (record.fields.flatMap Field.keys).Nodup := by decide

theorem Acknowledgement.nodup_keys : (record.fields.flatMap Field.keys).Nodup := by decide

/-! ### Payloads -/

/-- The fields of an order book payload are read from those of a tree. -/
structure BookPayload.IsOf (levels : Nat) (t : Node) (b : BookPayload) : Prop where
  symbol : ∃ v, t.field? ["s"] 0 = some v ∧ v.string? = some b.symbol
  bids : ∃ v, t.field? ["b"] 1 = some v ∧
    (Codec.list PriceLevel.codec).read levels v = .ok b.bids
  asks : ∃ v, t.field? ["a"] 2 = some v ∧
    (Codec.list PriceLevel.codec).read levels v = .ok b.asks
  updateId : ∃ v, t.field? ["u"] 3 = some v ∧ Codec.word.read levels v = .ok b.updateId
  sequence : ∃ v, t.field? ["seq"] 4 = some v ∧ Codec.word.read levels v = .ok b.sequence

theorem BookPayload.isOf_of_read {levels : Nat} {t : Node} {b : BookPayload}
    (h : codec.read (levels + 1) t = .ok b) : b.IsOf levels t := by
  obtain ⟨levels', xs, hlevels, hxs, rfl⟩ := Record.hold_of_read nodup_keys h
  obtain rfl := Nat.succ.inj hlevels
  obtain ⟨hsymbol, hbids, hasks, hupdateId, hsequence, _⟩ := hxs
  obtain ⟨v, hv, hread⟩ := field?_of_required hsymbol
  obtain ⟨body, rfl, hbody⟩ := Codec.readText_eq_ok_iff.1 hread
  exact ⟨⟨_, hv, hbody⟩, field?_of_required hbids, field?_of_required hasks,
    field?_of_required hupdateId, field?_of_required hsequence⟩

namespace Push

variable {p : Push}

/-- The event that a push yields, by the type of its topic. -/
inductive Yields (p : Push) : Event → Prop
  | book {payload : BookPayload} (htype : p.topicType = .orderBook)
    (hread : Json.decode BookPayload.codec (octets p.payload) = .ok payload) :
    Yields p (.book { toBookPayload := payload, kind := p.kind })
  | candles {symbol : String} {candles : List Candle} (htype : p.topicType = .kline)
    (hsymbol : Topic.symbol? p.topic = some symbol)
    (hread : Json.decode (.list Candle.codec) (octets p.payload) = .ok candles)
    (hne : candles ≠ []) : Yields p (.candles { symbol, kind := p.kind, candles })
  | orders {reports : List OrderReport} (htype : p.topicType = .order)
    (hread : Json.decode (.list OrderReport.codec) (octets p.payload) = .ok reports) :
    Yields p (.orders reports)
  | wallets {wallets : List Wallet} (htype : p.topicType = .wallet)
    (hread : Json.decode (.list Wallet.codec) (octets p.payload) = .ok wallets) :
    Yields p (.wallets wallets)

/-- The error of a push: its topic is of no known type, or has no symbol for candles, or else the
payload is to blame. -/
inductive Fails (p : Push) : FeedError → Prop
  | topicType (htype : p.topicType.isKnown = false) : Fails p (.unsupportedTopic p.topic)
  | symbol (htype : p.topicType = .kline) (hsymbol : Topic.symbol? p.topic = none) :
    Fails p (.topicFormat p.topic)
  | payload (hknown : p.topicType.isKnown = true)
    (hsymbol : p.topicType = .kline → ∃ symbol, Topic.symbol? p.topic = some symbol)
    (fault : Fault) : Fails p (.payload p.topicType p.payload fault)

theorem topicType_eq_iff {target : TopicType} (hknown : target.isKnown = true) :
    p.topicType = target ↔ Topic.first p.topic = target.text := by
  rw [topicType, Topic.type_eq_ofText_first]
  exact Topic.ofText_eq_iff hknown

theorem isKnown_topicType_iff : p.topicType.isKnown = true ↔
    Topic.first p.topic ∈ ["orderbook", "kline", "order", "wallet"] := by
  rw [topicType, Topic.type_eq_ofText_first]
  exact Topic.isKnown_ofText_iff

theorem text_topicType (p : Push) : p.topicType.text = Topic.first p.topic := by
  rw [topicType, Topic.type_eq_ofText_first, Topic.text_ofText]

theorem read_eq_ok_iff {α : Type} {target : TopicType} {codec : Codec α} {x : α} :
    p.read target codec = .ok x ↔ Json.decode codec (octets p.payload) = .ok x :=
  Outcome.mapError_eq_ok_iff

theorem eq_payload_of_read {α : Type} {target : TopicType} {codec : Codec α} {e : FeedError}
    (h : p.read target codec = .error e) : ∃ fault, e = .payload target p.payload fault := by
  obtain ⟨fault, _, rfl⟩ := Outcome.mapError_eq_error_iff.1 h
  exact ⟨fault, rfl⟩

theorem symbol_eq_ok_iff {symbol : String} :
    p.symbol = .ok symbol ↔ Topic.symbol? p.topic = some symbol := by
  unfold Push.symbol
  cases Topic.symbol? p.topic <;> simp

theorem symbol_eq_error_iff {e : FeedError} :
    p.symbol = .error e ↔ Topic.symbol? p.topic = none ∧ e = .topicFormat p.topic := by
  unfold Push.symbol
  cases Topic.symbol? p.topic <;> simp [eq_comm]

/-! ### Events -/

theorem book_eq_ok_iff {b : BookPush} :
    p.book = .ok b ↔
      ∃ payload, Json.decode BookPayload.codec (octets p.payload) = .ok payload ∧
        b = { toBookPayload := payload, kind := p.kind } := by
  refine Outcome.bind_eq_ok_iff.trans (exists_congr fun payload => ?_)
  rw [read_eq_ok_iff]
  refine and_congr_right fun _ => ?_
  exact ⟨fun h => (Except.ok.inj h).symm, fun h => congrArg Except.ok h.symm⟩

theorem candles_eq_ok_iff {c : CandlePush} :
    p.candles = .ok c ↔
      Topic.symbol? p.topic = some c.symbol ∧ c.kind = p.kind ∧ c.candles ≠ [] ∧
        Json.decode (.list Candle.codec) (octets p.payload) = .ok c.candles := by
  refine Outcome.bind_eq_ok_iff.trans ?_
  constructor
  · rintro ⟨symbol, hsymbol, h⟩
    obtain ⟨candles, hread, h⟩ := Outcome.bind_eq_ok_iff.1 h
    by_cases hne : candles = []
    · subst hne
      cases h
    · rw [if_neg (by simpa using hne)] at h
      cases h
      exact ⟨symbol_eq_ok_iff.1 hsymbol, rfl, hne, read_eq_ok_iff.1 hread⟩
  · rintro ⟨hsymbol, hkind, hne, hread⟩
    refine ⟨c.symbol, symbol_eq_ok_iff.2 hsymbol,
      Outcome.bind_eq_ok_iff.2 ⟨c.candles, read_eq_ok_iff.2 hread, ?_⟩⟩
    rw [if_neg (by simpa using hne), ← hkind]
    rfl

theorem yields_of_event {e : Event} (h : p.event = .ok e) : p.Yields e := by
  unfold event at h
  split at h
  · next htype =>
    obtain ⟨b, hb, rfl⟩ := Outcome.map_eq_ok_iff.1 h
    obtain ⟨payload, hread, rfl⟩ := book_eq_ok_iff.1 hb
    exact .book htype hread
  · next htype =>
    obtain ⟨⟨symbol, kind, candles⟩, hc, rfl⟩ := Outcome.map_eq_ok_iff.1 h
    obtain ⟨hsymbol, rfl, hne, hread⟩ := candles_eq_ok_iff.1 hc
    exact .candles htype hsymbol hread hne
  · next htype =>
    obtain ⟨reports, hread, rfl⟩ := Outcome.map_eq_ok_iff.1 h
    exact .orders htype (read_eq_ok_iff.1 hread)
  · next htype =>
    obtain ⟨wallets, hread, rfl⟩ := Outcome.map_eq_ok_iff.1 h
    exact .wallets htype (read_eq_ok_iff.1 hread)
  · cases h

theorem event_eq_ok_iff {e : Event} : p.event = .ok e ↔ p.Yields e := by
  refine ⟨yields_of_event, fun h => ?_⟩
  unfold event
  cases h with
  | book htype hread =>
    rw [htype]
    exact Outcome.map_eq_ok_iff.2 ⟨_, book_eq_ok_iff.2 ⟨_, hread, rfl⟩, rfl⟩
  | candles htype hsymbol hread hne =>
    rw [htype]
    exact Outcome.map_eq_ok_iff.2 ⟨_, candles_eq_ok_iff.2 ⟨hsymbol, rfl, hne, hread⟩, rfl⟩
  | orders htype hread =>
    rw [htype]
    exact Outcome.map_eq_ok_iff.2 ⟨_, read_eq_ok_iff.2 hread, rfl⟩
  | wallets htype hread =>
    rw [htype]
    exact Outcome.map_eq_ok_iff.2 ⟨_, read_eq_ok_iff.2 hread, rfl⟩

/-! ### Errors -/

/-- The topic of a candle push comes before its payload. -/
theorem candles_eq_error {e : FeedError} (h : p.candles = .error e) :
    (Topic.symbol? p.topic = none ∧ e = .topicFormat p.topic) ∨
      ∃ symbol fault,
        Topic.symbol? p.topic = some symbol ∧ e = .payload .kline p.payload fault := by
  rcases Outcome.bind_eq_error_iff.1 h with hsymbol | ⟨symbol, hsymbol, h⟩
  · exact Or.inl (symbol_eq_error_iff.1 hsymbol)
  · -- What is left is the payload, which is unreadable or an empty list.
    have hsymbol := symbol_eq_ok_iff.1 hsymbol
    refine Or.inr ⟨symbol, ?_⟩
    rcases Outcome.bind_eq_error_iff.1 h with hread | ⟨candles, _, h⟩
    · obtain ⟨fault, rfl⟩ := eq_payload_of_read hread
      exact ⟨fault, hsymbol, rfl⟩
    · split_ifs at h with hempty
      · cases h
        exact ⟨_, hsymbol, rfl⟩
      · cases h

theorem fails_of_read {α : Type} {codec : Codec α} {target : TopicType} {e : FeedError}
    (htype : p.topicType = target) (hknown : target.isKnown = true)
    (hsymbol : target = .kline → ∃ symbol, Topic.symbol? p.topic = some symbol)
    (h : p.read target codec = .error e) : p.Fails e := by
  subst htype
  obtain ⟨fault, rfl⟩ := eq_payload_of_read h
  exact .payload hknown hsymbol fault

theorem fails_of_event {e : FeedError} (h : p.event = .error e) : p.Fails e := by
  unfold event at h
  split at h
  · next htype =>
    rcases Outcome.bind_eq_error_iff.1 (Outcome.map_eq_error_iff.1 h) with hread | ⟨_, _, h⟩
    · exact fails_of_read htype rfl (by rintro ⟨⟩) hread
    · cases h
  · next htype =>
    rcases candles_eq_error (Outcome.map_eq_error_iff.1 h) with
      ⟨hsymbol, rfl⟩ | ⟨symbol, fault, hsymbol, rfl⟩
    · exact .symbol htype hsymbol
    · rw [← htype]
      exact .payload (by rw [htype]; rfl) (fun _ => ⟨symbol, hsymbol⟩) fault
  · next htype =>
    exact fails_of_read htype rfl (by rintro ⟨⟩) (Outcome.map_eq_error_iff.1 h)
  · next htype =>
    exact fails_of_read htype rfl (by rintro ⟨⟩) (Outcome.map_eq_error_iff.1 h)
  · next raw htype =>
    cases h
    exact .topicType (by rw [htype]; rfl)

/-- Where a push on a known topic yields nothing, its payload is to blame. -/
theorem payload_of_not_yields (hknown : p.topicType.isKnown = true)
    (hsymbol : p.topicType = .kline → ∃ symbol, Topic.symbol? p.topic = some symbol)
    (h : ∀ event, ¬p.Yields event) :
    ∃ fault, p.event = .error (.payload p.topicType p.payload fault) := by
  cases hevent : p.event with
  | ok event => exact absurd (event_eq_ok_iff.1 hevent) (h event)
  | error e =>
    cases fails_of_event hevent with
    | topicType hunknown => cases hunknown.symm.trans hknown
    | symbol htype hnone =>
      obtain ⟨symbol, hsome⟩ := hsymbol htype
      cases hnone.symm.trans hsome
    | payload _ _ fault => exact ⟨fault, rfl⟩

theorem event_of_unknown (h : p.topicType.isKnown = false) :
    p.event = .error (.unsupportedTopic p.topic) := by
  unfold event
  cases htype : p.topicType with
  | unknown raw => rfl
  | _ =>
    rw [htype] at h
    cases h

/-- Candles without a symbol fail before their payload is looked at. -/
theorem event_of_no_symbol (htype : p.topicType = .kline)
    (hsymbol : Topic.symbol? p.topic = none) : p.event = .error (.topicFormat p.topic) := by
  unfold event
  rw [htype]
  exact Outcome.map_eq_error_iff.2
    (Outcome.bind_eq_error_iff.2 (Or.inl (symbol_eq_error_iff.2 ⟨hsymbol, rfl⟩)))

end Push

end MarketFeed
