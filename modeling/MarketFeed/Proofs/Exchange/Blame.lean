import MarketFeed.Proofs.Exchange.Acceptance

/-!
# What an error blames

An error of reading puts the blame on one part of a frame, and keeps that part
(`Culprit.IsBlamed`): the frame itself if it is malformed, an acknowledgement that does not pass, or
a push, of which the topic is looked at before the payload.  There is always one culprit, and never
two (`Event.read_blames`).
-/

namespace MarketFeed

open Json Json.Node

/-- What an error of reading may put the blame on. -/
inductive Culprit where
  | frame
  | acknowledgement (a : Acknowledgement)
  | topicType (p : Push)
  | topicFormat (p : Push)
  | payload (p : Push)

namespace Culprit

/-- The first segments of the topics whose payloads are read. -/
def knownSegments : List String := ["orderbook", "kline", "order", "wallet"]

/-- An error puts the blame on a part of a frame, and keeps the text of that part.  The topic of a
push is to blame before its payload is. -/
def IsBlamed (raw : List UInt8) (e : FeedError) : Culprit → Prop
  | frame =>
    (∀ envelope, Envelope.decode raw ≠ .ok envelope) ∧
    (∃ cause, e = .malformed cause (textOf raw)) ∧ e.rawInput = some (textOf raw) ∧
    ∀ s, octets s = raw → e.rawInput = some s
  | acknowledgement a =>
    Envelope.decode raw = .ok (.acknowledgement a) ∧
    (e = .unknownOperation a ∨ e = .notAccepted a) ∧ e.rawInput = none
  | topicType p =>
    Envelope.decode raw = .ok (.push p) ∧ Topic.first p.topic ∉ knownSegments ∧
    e = .unsupportedTopic p.topic ∧ e.rawInput = some p.topic
  | topicFormat p =>
    Envelope.decode raw = .ok (.push p) ∧ Topic.first p.topic = "kline" ∧
    (∀ symbol, ¬Topic.HasSymbol p.topic symbol) ∧
    e = .topicFormat p.topic ∧ e.rawInput = some p.topic
  | payload p =>
    Envelope.decode raw = .ok (.push p) ∧ Topic.first p.topic ∈ knownSegments ∧
    (Topic.first p.topic = "kline" → ∃ symbol, Topic.HasSymbol p.topic symbol) ∧
    (∃ target fault, target.text = Topic.first p.topic ∧ e = .payload target p.payload fault) ∧
    e.rawInput = some p.payload

/-- The culprit by what a frame is decoded as and by the error. -/
def of? : Except FeedError Envelope → FeedError → Option Culprit
  | _, .malformed .. => some frame
  | _, .unknownOperation a | _, .notAccepted a => some (acknowledgement a)
  | .ok (.push p), .unsupportedTopic _ => some (topicType p)
  | .ok (.push p), .topicFormat _ => some (topicFormat p)
  | .ok (.push p), .payload .. => some (payload p)
  | _, _ => none

variable {raw : List UInt8} {e : FeedError} {c c' : Culprit}

theorem of?_of_isBlamed (h : c.IsBlamed raw e) : of? (Envelope.decode raw) e = some c := by
  cases c with
  | frame =>
    obtain ⟨_, ⟨cause, rfl⟩, _⟩ := h
    rw [of?]
  | acknowledgement a =>
    obtain ⟨_, rfl | rfl, _⟩ := h
    · rw [of?]
    · rw [of?]
  | topicType p =>
    obtain ⟨hdecode, _, rfl, _⟩ := h
    rw [hdecode, of?]
  | topicFormat p =>
    obtain ⟨hdecode, _, _, rfl, _⟩ := h
    rw [hdecode, of?]
  | payload p =>
    obtain ⟨hdecode, _, _, ⟨_, _, _, rfl⟩, _⟩ := h
    rw [hdecode, of?]

/-- An error blames one part of a frame only. -/
theorem isBlamed_unique (h : c.IsBlamed raw e) (h' : c'.IsBlamed raw e) : c = c' :=
  Option.some.inj ((of?_of_isBlamed h).symm.trans (of?_of_isBlamed h'))

/-- No part of a frame is to blame for what a conversion or a subscription fails for. -/
theorem ne_of_isBlamed (h : c.IsBlamed raw e) :
    (∀ code candle, e ≠ .unknownInterval code candle) ∧
      (∀ timeframe, e ≠ .unsupportedInterval timeframe) ∧
      ∀ field millis, e ≠ .timestamp field millis := by
  have hof := of?_of_isBlamed h
  refine ⟨fun _ _ he => ?_, fun _ he => ?_, fun _ _ he => ?_⟩
  all_goals
    subst he
    simp [of?] at hof

/-! ### Finding the culprit -/

theorem isBlamed_frame (h : Envelope.decode raw = .error e) : frame.IsBlamed raw e := by
  obtain ⟨cause, _, rfl⟩ := Outcome.mapError_eq_error_iff.1 h
  refine ⟨fun envelope hok => ?_, ⟨cause, rfl⟩, rfl, fun s hs => ?_⟩
  · rw [h] at hok
    cases hok
  · rw [← hs, FeedError.rawInput, textOf_octets]

theorem isBlamed_acknowledgement {a : Acknowledgement}
    (hdecode : Envelope.decode raw = .ok (.acknowledgement a)) (h : a.check = .error e) :
    (acknowledgement a).IsBlamed raw e := by
  rcases Acknowledgement.carried_of_check h with rfl | rfl
  · exact ⟨hdecode, Or.inl rfl, rfl⟩
  · exact ⟨hdecode, Or.inr rfl, rfl⟩

/-- The error of a push blames its topic or its payload. -/
theorem exists_isBlamed_push {p : Push} (hdecode : Envelope.decode raw = .ok (.push p))
    (h : p.event = .error e) : ∃ c : Culprit, c.IsBlamed raw e := by
  cases Push.fails_of_event h with
  | topicType hunknown =>
    refine ⟨topicType p, hdecode, fun hknown => ?_, rfl, rfl⟩
    rw [Push.isKnown_topicType_iff.2 hknown] at hunknown
    cases hunknown
  | symbol htype hsymbol =>
    exact ⟨topicFormat p, hdecode, (Push.topicType_eq_iff rfl).1 htype,
      Topic.symbol?_eq_none_iff.1 hsymbol, rfl, rfl⟩
  | payload hknown hsymbol fault =>
    refine ⟨payload p, hdecode, Push.isKnown_topicType_iff.1 hknown, fun hkline => ?_,
      ⟨p.topicType, fault, p.text_topicType, rfl⟩, rfl⟩
    obtain ⟨symbol, hsymbol⟩ := hsymbol ((Push.topicType_eq_iff rfl).2 hkline)
    exact ⟨symbol, Topic.symbol?_eq_some_iff.1 hsymbol⟩

theorem exists_isBlamed (h : Event.ofFrame raw = .error e) : ∃ c : Culprit, c.IsBlamed raw e := by
  rcases Event.ofFrame_eq_error_iff.1 h with hdecode | ⟨a, hdecode, hcheck⟩ | ⟨p, hdecode, hevent⟩
  · exact ⟨frame, isBlamed_frame hdecode⟩
  · exact ⟨acknowledgement a, isBlamed_acknowledgement hdecode hcheck⟩
  · exact exists_isBlamed_push hdecode hevent

end Culprit

/-- Every error of reading blames one part of the frame, and none comes from the conversion to
market data or from a subscription.  A frame that is malformed, and a push with a topic that does
not do, are errors whatever else is wrong with them. -/
theorem Event.read_blames (table : IntervalTable) (raw : List UInt8) :
    (∀ e, (table.feed.read raw).result = .error e →
      (∃! culprit : Culprit, culprit.IsBlamed raw e) ∧
      (∀ code candle, e ≠ .unknownInterval code candle) ∧
      (∀ timeframe, e ≠ .unsupportedInterval timeframe) ∧
      ∀ field millis, e ≠ .timestamp field millis) ∧
    (∀ e, Envelope.decode raw = .error e → (table.feed.read raw).result = .error e) ∧
    (∀ p, Envelope.decode raw = .ok (.push p) → Topic.first p.topic ∉ Culprit.knownSegments →
      (table.feed.read raw).result = .error (.unsupportedTopic p.topic)) ∧
    (∀ p, Envelope.decode raw = .ok (.push p) → Topic.first p.topic = "kline" →
      (∀ symbol, ¬Topic.HasSymbol p.topic symbol) →
      (table.feed.read raw).result = .error (.topicFormat p.topic)) := by
  have hread : (table.feed.read raw).result = ofFrame raw := result_read raw
  rw [hread]
  refine ⟨fun e h => ?_, fun e => ofFrame_of_error, fun p hdecode hfirst => ?_,
    fun p hdecode hfirst hsymbol => ?_⟩
  · obtain ⟨c, hc⟩ := Culprit.exists_isBlamed h
    exact ⟨⟨c, hc, fun c' hc' => Culprit.isBlamed_unique hc' hc⟩, Culprit.ne_of_isBlamed hc⟩
  · rw [ofFrame_of_push hdecode]
    refine Push.event_of_unknown (Bool.eq_false_iff.2 fun hknown => ?_)
    exact hfirst (Push.isKnown_topicType_iff.1 hknown)
  · rw [ofFrame_of_push hdecode]
    exact Push.event_of_no_symbol ((Push.topicType_eq_iff rfl).2 hfirst)
      (Topic.symbol?_eq_none_iff.2 hsymbol)

/-- A frame with candles on a topic that has one segment too many, and a payload that is no list. -/
def misroutedFrame : Node :=
  ofPairs [
    ("topic", ofString "kline.5.BTC.USDT"),
    ("type", ofString "snapshot"),
    ("ts", ofNat 1672304484978),
    ("data", ofPairs [("start", .null)])]

theorem Event.read_blames_misrouted :
    (IntervalTable.standard.feed.read misroutedFrame.text).result =
        .error (.topicFormat "kline.5.BTC.USDT") ∧
      ∃! culprit : Culprit,
        culprit.IsBlamed misroutedFrame.text (.topicFormat "kline.5.BTC.USDT") := by
  obtain ⟨hblamed, _, _, hformat⟩ := read_blames IntervalTable.standard misroutedFrame.text
  have hpush : Envelope.decode misroutedFrame.text = .ok (.push ⟨"kline.5.BTC.USDT", .snapshot,
      1672304484978, ((misroutedFrame.field? ["data"] 9).map fun v => textOf v.text).getD ""⟩) := by
    decide +kernel
  have hsymbol : ∀ symbol, ¬Topic.HasSymbol "kline.5.BTC.USDT" symbol :=
    Topic.symbol?_eq_none_iff.1 (by decide +kernel)
  have hread := hformat _ hpush (by decide +kernel) hsymbol
  exact ⟨hread, (hblamed _ hread).1⟩

end MarketFeed
