import MarketFeed.Exchange.Feed
import MarketFeed.Proofs.Json.View

/-!
# The fields of a frame

What is decoded as the fields of a frame is a tree of the grammar, in which each field has its value
(`FrameFields.hold_of_decode`), whether it is an object or an array.
-/

namespace MarketFeed

open Json Json.Node

/-- The levels that the values of a frame's fields may have. -/
abbrev memberLevels : Nat := 126

/-- A record is decoded from an object exactly if the members of no field are passed over, and what
there is for each field reads as the value of the field. -/
theorem Json.Record.decode_object_iff {α : Type} {record : Record α}
    (hkeys : (record.fields.flatMap Field.keys).Nodup) {raw : List UInt8}
    {ms : List (Entry Node)} {ending : Ending} (hraw : Spells raw (.object ms ending)) {a : α} :
    Json.decode record.codec raw = .ok a ↔
      (∀ m ∈ ms, m.isNamed (record.fields.flatMap Field.keys) = true ∨ m.isIgnorable = true) ∧
      ∃ xs, Values.Hold memberLevels (.object ms ending) record.fields 0 xs ∧
        record.ofValues xs = a := by
  obtain ⟨_, gap, rfl, _⟩ := (isGrammatical_object ms ending).1 (isGrammatical_of_spells hraw)
  rw [decode_of_spells record.codec hraw]
  refine (@Record.read_object_iff _ record hkeys memberLevels ms (.closed gap) a).trans ?_
  simp [Ending.isClosed]

namespace FrameFields

theorem nodup_keys : (record.fields.flatMap Field.keys).Nodup := by decide

theorem readsSound : record.codec.ReadsSound := by
  refine Record.readsSound record ?_
  simp only [record, maybe, List.forall_mem_cons]
  have hnull : ∀ (levels : Nat) (t : Node), t.isNull = true → t.isSound = true :=
    fun _ _ => isSound_of_isNull
  have hword : ∀ levels t, Codec.word.isNull levels t = true → t.isSound = true :=
    fun _ _ h => Codec.isSound_of_value (Codec.word_isNull_iff.1 h)
  exact ⟨Codec.readsSound_optional hnull Codec.readsSound_flag,
    Codec.readsSound_optional hnull Codec.readsSound_text,
    Codec.readsSound_optional hnull Codec.readsSound_text,
    Codec.readsSound_optional hnull Codec.readsSound_text,
    Codec.readsSound_optional hnull (Codec.readsSound_named _ _ _),
    Codec.readsSound_optional hnull (Codec.readsSound_list Codec.readsSound_text),
    Codec.readsSound_optional hnull Codec.readsSound_text,
    Codec.readsSound_optional hnull (Codec.readsSound_choice _ _ _),
    Codec.readsSound_optional hword Codec.readsSound_word,
    Codec.readsSound_optional hnull Codec.readsSound_captured,
    List.forall_mem_nil _⟩

/-- The fields that are decoded are those of a tree that the octets spell. -/
theorem hold_of_decode {raw : List UInt8} {f : FrameFields}
    (h : Json.decode record.codec raw = .ok f) :
    ∃ t, Spells raw t ∧ Values.Hold memberLevels t record.fields 0 (record.toValues f) := by
  obtain ⟨t, hspells, hread⟩ := (decode_eq_ok_iff readsSound).1 h
  obtain ⟨levels, xs, hlevels, hxs, rfl⟩ := Record.hold_of_read nodup_keys hread
  obtain rfl : memberLevels = levels := Nat.succ.inj hlevels
  exact ⟨t, hspells, hxs⟩

section

variable {α : Type} {levels : Nat} {label key : String} {codec : Codec α}
  {absence : Absence (Option α)} {other : Option String} {omitted : Option α → Bool}
  {values : List Node}

/-- Nothing is read for a field that may be missing if it has no value, or one that stands for
none. -/
theorem holds_none_iff (habsent : absence.object? = some none) :
    (@Json.Field.mk (Option α) label key codec.optional absence other omitted).Holds levels values
      (none : Option α) ↔ values = [] ∨ ∃ v, values = [v] ∧ codec.isNull levels v = true := by
  constructor
  · rintro (⟨hvalues, _⟩ | ⟨v, hvalues, hread⟩)
    · exact Or.inl hvalues
    · exact Or.inr ⟨v, hvalues, Codec.optional_read_eq_none_iff.1 hread⟩
  · rintro (hvalues | ⟨v, hvalues, hnull⟩)
    · exact Or.inl ⟨hvalues, habsent⟩
    · exact Or.inr ⟨v, hvalues, Codec.optional_read_eq_none_iff.2 hnull⟩

/-- Something is read for a field that may be missing if it has one value, which does not stand for
none. -/
theorem holds_some_iff (habsent : absence.object? = some none) {x : α} :
    (@Json.Field.mk (Option α) label key codec.optional absence other omitted).Holds levels values
      (some x) ↔
    ∃ v, values = [v] ∧ codec.isNull levels v = false ∧ codec.read levels v = .ok x := by
  constructor
  · rintro (⟨_, hx⟩ | ⟨v, hvalues, hread⟩)
    · rw [habsent] at hx
      cases hx
    · exact ⟨v, hvalues, Codec.optional_read_eq_some_iff.1 hread⟩
  · rintro ⟨v, hvalues, hread⟩
    exact Or.inr ⟨v, hvalues, Codec.optional_read_eq_some_iff.2 hread⟩

/-- A field that is there has a value of its own. -/
theorem read_of_holds {y : Option α} {x : α} (habsent : absence.object? = some none)
    (h : (@Json.Field.mk (Option α) label key codec.optional absence other omitted).Holds levels
      values y) (hy : y = some x) :
    ∃ v, values = [v] ∧ codec.isNull levels v = false ∧ codec.read levels v = .ok x := by
  subst hy
  exact (holds_some_iff habsent).1 h

end

/-- Topics of the market have no kind to stand in. -/
theorem pushKind?_eq {topic : String} {kind : Option PushKind}
    (htype : Topic.type topic = .orderBook ∨ Topic.type topic = .kline) :
    pushKind? topic kind = kind := by
  rcases htype with htype | htype
  · rw [pushKind?, htype, Option.or_none]
  · rw [pushKind?, htype, Option.or_none]

theorem push_eq_ok_iff {f : FrameFields} {p : Push} :
    f.push = .ok p ↔ f.topic = some p.topic ∧ f.data = some p.payload ∧
      f.timestamp = some p.timestamp ∧ pushKind? p.topic f.kind = some p.kind := by
  unfold push
  cases htopic : f.topic with
  | none => simp
  | some topic =>
    cases hdata : f.data with
    | none => simp
    | some payload =>
      cases htimestamp : f.timestamp with
      | none => simp
      | some timestamp =>
        obtain ⟨topic', kind', timestamp', payload'⟩ := p
        dsimp only
        constructor
        · intro h
          cases hkind : pushKind? topic f.kind with
          | none =>
            rw [hkind] at h
            cases h
          | some kind =>
            rw [hkind] at h
            cases h
            exact ⟨rfl, rfl, rfl, hkind⟩
        · rintro ⟨ht, hd, hts, hkind⟩
          cases ht
          cases hd
          cases hts
          rw [hkind]

end FrameFields

namespace Envelope

theorem decode_eq_ok_iff {raw : List UInt8} {e : Envelope} :
    decode raw = .ok e ↔
      ∃ f, Json.decode FrameFields.record.codec raw = .ok f ∧ ofFields f = .ok e := by
  rw [decode, Outcome.mapError_eq_ok_iff, read]
  cases Json.decode FrameFields.record.codec raw with
  | error fault => simp
  | ok f => simp

theorem ofFields_eq_acknowledgement_iff {f : FrameFields} {a : Acknowledgement} :
    ofFields f = .ok (.acknowledgement a) ↔
      f.isOperational = true ∧ f.isTopical = false ∧ a = f.acknowledgement := by
  rw [ofFields]
  cases f.isOperational with
  | false =>
    cases f.isTopical with
    | false => simp
    | true => cases f.push <;> simp [Except.map]
  | true =>
    cases f.isTopical with
    | false => simp [eq_comm]
    | true => simp

theorem ofFields_eq_push_iff {f : FrameFields} {p : Push} :
    ofFields f = .ok (.push p) ↔ f.isOperational = false ∧ f.push = .ok p := by
  rw [ofFields]
  cases f.isOperational with
  | true => cases f.isTopical <;> simp
  | false =>
    cases htopical : f.isTopical with
    | true => cases f.push <;> simp [Except.map]
    | false =>
      have htopic : f.topic = none := by
        cases htopic : f.topic with
        | none => rfl
        | some topic => simp [FrameFields.isTopical, htopic] at htopical
      simp [FrameFields.push, htopic]

/-- A push is what the fields of a tree make up. -/
theorem hold_of_push {raw : List UInt8} {p : Push} (h : decode raw = .ok (.push p)) :
    ∃ f frame, f.push = .ok p ∧ Spells raw frame ∧
      Values.Hold memberLevels frame FrameFields.record.fields 0
        (FrameFields.record.toValues f) := by
  obtain ⟨f, hfields, hf⟩ := decode_eq_ok_iff.1 h
  obtain ⟨frame, hspells, hholds⟩ := FrameFields.hold_of_decode hfields
  exact ⟨f, frame, (ofFields_eq_push_iff.1 hf).2, hspells, hholds⟩

/-- The payload of a push is captured from what the frame has as its data, which is not null. -/
theorem captured_payload {raw : List UInt8} {p : Push} (h : decode raw = .ok (.push p)) :
    ∃ frame payload, Spells raw frame ∧ frame.field? ["data"] 9 = some payload ∧
      payload ≠ .null ∧ octets p.payload = payload.text := by
  obtain ⟨f, frame, hpush, hspells, _, _, _, _, _, _, _, _, _, hdata, _⟩ := hold_of_push h
  obtain ⟨_, hvalue, _⟩ := FrameFields.push_eq_ok_iff.1 hpush
  obtain ⟨v, hv, hnull, hread⟩ := FrameFields.read_of_holds rfl hdata hvalue
  have hvalues : frame.fieldValues ["data"] 9 = [v] := hv
  exact ⟨frame, v, hspells, by rw [field?, hvalues], not_isNull_iff.1 hnull,
    Codec.captured_read hread⟩

/-- The payload of a push is the text of what the frame has as its data. -/
theorem spells_payload {raw : List UInt8} {p : Push} (h : decode raw = .ok (.push p)) :
    ∃ frame payload, Spells raw frame ∧ frame.field? ["data"] 9 = some payload ∧
      Spells (octets p.payload) payload := by
  obtain ⟨frame, v, hspells, hfield, _, htext⟩ := captured_payload h
  refine ⟨frame, v, hspells, hfield, ?_⟩
  rw [htext]
  exact spells_text (isGrammatical_of_field? (isGrammatical_of_spells hspells) hfield)

/-- A push on a topic of the market has the kind that the frame has as its type. -/
theorem kind_of_push {raw : List UInt8} {p : Push} (h : decode raw = .ok (.push p))
    (htype : p.topicType = .orderBook ∨ p.topicType = .kline) :
    ∃ frame type, Spells raw frame ∧ frame.field? ["type"] 7 = some type ∧
      PushKind.codec.read memberLevels type = .ok p.kind := by
  obtain ⟨f, frame, hpush, hspells, _, _, _, _, _, _, _, hkind, _⟩ := hold_of_push h
  obtain ⟨_, _, _, hvalue⟩ := FrameFields.push_eq_ok_iff.1 hpush
  have hsaid : f.kind = some p.kind := (FrameFields.pushKind?_eq htype).symm.trans hvalue
  obtain ⟨v, hv, _, hread⟩ := FrameFields.read_of_holds rfl hkind hsaid
  have hvalues : frame.fieldValues ["type"] 7 = [v] := hv
  exact ⟨frame, v, hspells, by rw [field?, hvalues], hread⟩

end Envelope

/-! ### Events -/

namespace Event

theorem ofFrame_of_error {raw : List UInt8} {e : FeedError} (h : Envelope.decode raw = .error e) :
    ofFrame raw = .error e := by
  unfold ofFrame
  rw [h]
  rfl

theorem ofFrame_of_push {raw : List UInt8} {p : Push} (h : Envelope.decode raw = .ok (.push p)) :
    ofFrame raw = p.event := by
  unfold ofFrame
  rw [h]
  rfl

theorem ofFrame_of_acknowledgement {raw : List UInt8} {a : Acknowledgement}
    (h : Envelope.decode raw = .ok (.acknowledgement a)) :
    ofFrame raw = a.check.map fun () => .acknowledgement a := by
  unfold ofFrame
  rw [h]
  change (a.check >>= fun _ => Except.ok (acknowledgement a)) = _
  cases a.check <;> rfl

/-- An event is an acknowledgement that passes, or what a push yields. -/
theorem ofFrame_eq_ok_iff {raw : List UInt8} {event : Event} :
    ofFrame raw = .ok event ↔
      (∃ a, Envelope.decode raw = .ok (.acknowledgement a) ∧ a.check = .ok () ∧
        event = .acknowledgement a) ∨
      ∃ p, Envelope.decode raw = .ok (.push p) ∧ p.event = .ok event := by
  cases hdecode : Envelope.decode raw with
  | error e => simp [ofFrame_of_error hdecode]
  | ok envelope =>
    cases envelope with
    | acknowledgement a =>
      rw [ofFrame_of_acknowledgement hdecode]
      cases hcheck : a.check <;> simp [Except.map, hcheck, eq_comm]
    | push p => simp [ofFrame_of_push hdecode]

/-- An error comes from a frame that is not decoded, from an acknowledgement that does not pass, or
from a push. -/
theorem ofFrame_eq_error_iff {raw : List UInt8} {e : FeedError} :
    ofFrame raw = .error e ↔
      Envelope.decode raw = .error e ∨
      (∃ a, Envelope.decode raw = .ok (.acknowledgement a) ∧ a.check = .error e) ∨
      ∃ p, Envelope.decode raw = .ok (.push p) ∧ p.event = .error e := by
  cases hdecode : Envelope.decode raw with
  | error e => simp [ofFrame_of_error hdecode]
  | ok envelope =>
    cases envelope with
    | acknowledgement a =>
      rw [ofFrame_of_acknowledgement hdecode]
      cases hcheck : a.check <;> simp [Except.map, hcheck]
    | push p => simp [ofFrame_of_push hdecode]

theorem result_read (raw : List UInt8) : (read raw).result = ofFrame raw := by
  unfold read
  cases ofFrame raw <;> rfl

end Event

end MarketFeed
