import MarketFeed.Proofs.Exchange.Classification
import MarketFeed.Proofs.Exchange.RoundTrip

/-!
# Acknowledgements without a frame

An object without a key of a push can be decoded as a frame or as a record of its own.  The record
asks for more than the frame: an operation has to be there, and null does not stand for a value that
may be left out (`Acknowledgement.IsStated`).  Where that is so, the two give the same
acknowledgement (`Acknowledgement.decode_iff_frame`).
-/

namespace MarketFeed

open Json Json.Node

namespace Acknowledgement

/-- The keys of the fields that only a push has. -/
def pushKeys : List String := ["topic", "type", "ts", "creationTime", "data"]

/-- There is an operation, and no null for a value that may be left out. -/
structure IsStated (ms : List (Entry Node)) : Prop where
  op : ∃ m ∈ ms, m.isNamed ["op"] = true ∧ m.value ≠ .null
  others : ∀ m ∈ ms, m.isNamed ["success", "ret_msg", "conn_id", "args"] = true → m.value ≠ .null

/-! ### Keys -/

theorem perm_keys : (FrameFields.record.fields.flatMap Field.keys).Perm
    (record.fields.flatMap Field.keys ++ pushKeys) := by decide

theorem disjoint_pushKeys : pushKeys.Disjoint (record.fields.flatMap Field.keys) := by
  simp [pushKeys, record, Field.keys, Field.required, Field.withDefault]

variable {ms : List (Entry Node)}

/-- A member with no key of a push is for a field of a frame exactly if it is for one of an
acknowledgement. -/
theorem isNamed_frame {m : Entry Node} (hm : m.isNamed pushKeys = false) :
    m.isNamed (FrameFields.record.fields.flatMap Field.keys) =
      m.isNamed (record.fields.flatMap Field.keys) := by
  have hperm : m.isNamed (FrameFields.record.fields.flatMap Field.keys) =
      m.isNamed (record.fields.flatMap Field.keys ++ pushKeys) := by
    unfold Entry.isNamed
    cases StringPart.decode? m.key with
    | none => rfl
    | some key => exact perm_keys.contains_eq
  rw [hperm, Entry.isNamed_append, hm, Bool.or_false]

theorem isStated_others_iff :
    (∀ m ∈ ms, m.isNamed ["success", "ret_msg", "conn_id", "args"] = true → m.value ≠ .null) ↔
      (∀ v ∈ valuesNamed ["success"] ms, v ≠ .null) ∧
        (∀ v ∈ valuesNamed ["ret_msg"] ms, v ≠ .null) ∧
          (∀ v ∈ valuesNamed ["conn_id"] ms, v ≠ .null) ∧
            ∀ v ∈ valuesNamed ["args"] ms, v ≠ .null := by
  have hsplit (m : Entry Node) : m.isNamed ["success", "ret_msg", "conn_id", "args"] =
      (m.isNamed ["success"] || (m.isNamed ["ret_msg"] ||
        (m.isNamed ["conn_id"] || m.isNamed ["args"]))) := by
    simp only [← Entry.isNamed_append, List.singleton_append]
  simp only [forall_mem_valuesNamed, hsplit, Bool.or_eq_true, or_imp, forall_and]

/-! ### Fields -/

section

variable {α : Type} {label key : String} {keys : List String} {codec : Codec α}

/-- A field with a default holds what the members say or the default, unless they say null. -/
theorem holds_withDefault_iff (hnull : ∀ x, codec.read memberLevels .null ≠ .ok x)
    {standIn x : α} :
    (Field.withDefault label key codec standIn).Holds memberLevels (valuesNamed keys ms) x ↔
      (∃ said, Envelope.Says ms keys Envelope.IsNull codec said ∧ said.getD standIn = x) ∧
        ∀ v ∈ valuesNamed keys ms, v ≠ .null := by
  constructor
  · rintro (⟨hnone, hx⟩ | ⟨v, hv, hread⟩)
    · rw [hnone]
      exact ⟨⟨none, Or.inl hnone, Option.some.inj hx⟩, List.forall_mem_nil _⟩
    · have hne : v ≠ .null := by
        rintro rfl
        exact hnull x hread
      rw [hv]
      exact ⟨⟨some x, ⟨v, hv, hne, hread⟩, rfl⟩, List.forall_mem_singleton.2 hne⟩
  · rintro ⟨⟨said, hsaid, rfl⟩, hne⟩
    cases said with
    | some x =>
      obtain ⟨v, hv, _, hread⟩ := hsaid
      exact Or.inr ⟨v, hv, hread⟩
    | none =>
      rcases hsaid with hnone | ⟨v, hv, hnull⟩
      · exact Or.inl ⟨hnone, rfl⟩
      · rw [hv] at hne
        exact absurd hnull (hne v (List.mem_singleton_self _))

/-- A field that has to be there holds what the members say. -/
theorem holds_required_iff (hnull : ∀ x, codec.read memberLevels .null ≠ .ok x) {x : α} :
    (Field.required label key codec).Holds memberLevels (valuesNamed keys ms) x ↔
      Envelope.Says ms keys Envelope.IsNull codec (some x) := by
  constructor
  · rintro (⟨_, hx⟩ | ⟨v, hv, hread⟩)
    · cases hx
    · refine ⟨v, hv, ?_, hread⟩
      rintro rfl
      exact hnull x hread
  · rintro ⟨v, hv, _, hread⟩
    exact Or.inr ⟨v, hv, hread⟩

/-- Nothing is said where no member has one of the keys. -/
theorem says_iff_of_none {isAbsent : Node → Prop} (h : valuesNamed keys ms = [])
    {said : Option α} : Envelope.Says ms keys isAbsent codec said ↔ said = none := by
  cases said with
  | none => simp [Envelope.Says, h]
  | some x => simp [Envelope.Says, h]

end

/-! ### Acknowledgements -/

theorem op_of_isStated {f : FrameFields} (h : IsStated ms)
    (hop : Envelope.Says ms ["op"] Envelope.IsNull Operation.codec f.op) :
    ∃ op, f.op = some op := by
  obtain ⟨m, hm, hnamed, hne⟩ := h.op
  have hmem : m.value ∈ valuesNamed ["op"] ms :=
    List.mem_map_of_mem (List.mem_filter.2 ⟨hm, hnamed⟩)
  cases hf : f.op with
  | some op => exact ⟨op, rfl⟩
  | none =>
    rw [hf] at hop
    rcases hop with hnone | ⟨v, hv, hnull⟩
    · rw [hnone] at hmem
      cases hmem
    · rw [hv, List.mem_singleton] at hmem
      exact absurd hnull (hmem ▸ hne)

theorem isStated_op {op : Operation}
    (h : Envelope.Says ms ["op"] Envelope.IsNull Operation.codec (some op)) :
    ∃ m ∈ ms, m.isNamed ["op"] = true ∧ m.value ≠ .null := by
  obtain ⟨v, hv, hne, _⟩ := h
  have hmem : v ∈ valuesNamed ["op"] ms := hv ▸ List.mem_singleton_self v
  obtain ⟨m, hm, rfl⟩ := List.mem_map.1 hmem
  exact ⟨m, (List.mem_filter.1 hm).1, (List.mem_filter.1 hm).2, hne⟩

/-- Where no member has a key of a push, the fields that are described are those of an
acknowledgement. -/
theorem describes_iff (hpush : ∀ m ∈ ms, m.isNamed pushKeys = false) {f : FrameFields} :
    Envelope.Describes ms f ↔
      (f.topic = none ∧ f.kind = none ∧ f.timestamp = none ∧ f.data = none) ∧
        Envelope.Says ms ["success"] Envelope.IsNull .flag f.success ∧
        Envelope.Says ms ["ret_msg"] Envelope.IsNull .text f.retMsg ∧
        Envelope.Says ms ["req_id"] Envelope.IsNull .text f.reqId ∧
        Envelope.Says ms ["conn_id"] Envelope.IsNull .text f.connId ∧
        Envelope.Says ms ["op"] Envelope.IsNull Operation.codec f.op ∧
        Envelope.Says ms ["args"] Envelope.IsNull (.list .text) f.args := by
  have hnone {keys : List String} (h : keys ⊆ pushKeys) : valuesNamed keys ms = [] :=
    valuesNamed_eq_nil fun m hm => Entry.isNamed_of_subset h (hpush m hm)
  have htopic : valuesNamed ["topic"] ms = [] := hnone (by simp [pushKeys])
  have hkind : valuesNamed ["type"] ms = [] := hnone (by simp [pushKeys])
  have htime : valuesNamed ["ts", "creationTime"] ms = [] := hnone (by simp [pushKeys])
  have hdata : valuesNamed ["data"] ms = [] := hnone (by simp [pushKeys])
  constructor
  · rintro ⟨hsuccess, hretMsg, hreqId, hconnId, hop, hargs, h₁, h₂, h₃, h₄⟩
    exact ⟨⟨(says_iff_of_none htopic).1 h₁, (says_iff_of_none hkind).1 h₂,
      (says_iff_of_none htime).1 h₃, (says_iff_of_none hdata).1 h₄⟩,
      hsuccess, hretMsg, hreqId, hconnId, hop, hargs⟩
  · rintro ⟨⟨h₁, h₂, h₃, h₄⟩, hsuccess, hretMsg, hreqId, hconnId, hop, hargs⟩
    exact ⟨hsuccess, hretMsg, hreqId, hconnId, hop, hargs, (says_iff_of_none htopic).2 h₁,
      (says_iff_of_none hkind).2 h₂, (says_iff_of_none htime).2 h₃, (says_iff_of_none hdata).2 h₄⟩

/-- The fields of an acknowledgement are read from members that state it, and as they are for a
frame. -/
theorem hold_iff_describes (hpush : ∀ m ∈ ms, m.isNamed pushKeys = false) {ending : Ending}
    {a : Acknowledgement} :
    (∃ xs, Values.Hold memberLevels (.object ms ending) record.fields 0 xs ∧
        record.ofValues xs = a) ↔
      IsStated ms ∧ ∃ f, Envelope.Describes ms f ∧ f.acknowledgement = a := by
  constructor
  · rintro ⟨⟨op, success, retMsg, connId, reqId, args, ⟨⟩⟩, h, rfl⟩
    obtain ⟨hop, hsuccess, hretMsg, hconnId, hreqId, hargs, _⟩ := h
    obtain ⟨⟨success, h₁, rfl⟩, hne₁⟩ := (holds_withDefault_iff nofun).1 hsuccess
    obtain ⟨⟨retMsg, h₂, rfl⟩, hne₂⟩ := (holds_withDefault_iff nofun).1 hretMsg
    obtain ⟨⟨connId, h₃, rfl⟩, hne₃⟩ := (holds_withDefault_iff nofun).1 hconnId
    obtain ⟨⟨args, h₄, rfl⟩, hne₄⟩ := (holds_withDefault_iff nofun).1 hargs
    have h₅ : Envelope.Says ms ["req_id"] Envelope.IsNull .text reqId :=
      (Envelope.holds_optional_iff rfl fun _ => isNull_iff).1 hreqId
    have h₆ : Envelope.Says ms ["op"] Envelope.IsNull Operation.codec (some op) :=
      (holds_required_iff nofun).1 hop
    refine ⟨⟨isStated_op h₆, isStated_others_iff.2 ⟨hne₁, hne₂, hne₃, hne₄⟩⟩,
      ⟨success, retMsg, reqId, connId, some op, args, none, none, none, none⟩, ?_, rfl⟩
    exact (describes_iff hpush).2 ⟨⟨rfl, rfl, rfl, rfl⟩, h₁, h₂, h₅, h₃, h₆, h₄⟩
  · rintro ⟨hstated, f, hf, rfl⟩
    obtain ⟨_, hsuccess, hretMsg, hreqId, hconnId, hop, hargs⟩ := (describes_iff hpush).1 hf
    obtain ⟨hne₁, hne₂, hne₃, hne₄⟩ := isStated_others_iff.1 hstated.others
    obtain ⟨op, hf⟩ := op_of_isStated hstated hop
    have hop : Envelope.Says ms ["op"] Envelope.IsNull Operation.codec
        (some f.acknowledgement.op) := by
      simpa [FrameFields.acknowledgement, hf] using hop
    refine ⟨record.toValues f.acknowledgement, ?_, rfl⟩
    exact ⟨(holds_required_iff nofun).2 hop,
      (holds_withDefault_iff nofun).2 ⟨⟨_, hsuccess, rfl⟩, hne₁⟩,
      (holds_withDefault_iff nofun).2 ⟨⟨_, hretMsg, rfl⟩, hne₂⟩,
      (holds_withDefault_iff nofun).2 ⟨⟨_, hconnId, rfl⟩, hne₃⟩,
      (Envelope.holds_optional_iff rfl fun _ => isNull_iff).2 hreqId,
      (holds_withDefault_iff nofun).2 ⟨⟨_, hargs, rfl⟩, hne₄⟩, trivial⟩

/-! ### Frames -/

/-- Without a key of a push, a frame is an acknowledgement of the fields that are described, of
which there has to be one. -/
theorem frame_iff_describes (hpush : ∀ m ∈ ms, m.isNamed pushKeys = false) {ending : Ending}
    {raw : List UInt8} (hraw : Spells raw (.object ms ending)) {a : Acknowledgement} :
    Envelope.decode raw = .ok (.acknowledgement a) ↔
      (∀ m ∈ ms, m.isNamed (record.fields.flatMap Field.keys) = true ∨ m.isIgnorable = true) ∧
      ∃ f, Envelope.Describes ms f ∧ Envelope.HasOperation f ∧ f.acknowledgement = a := by
  have hmembers : (∀ m ∈ ms, m.isNamed (FrameFields.record.fields.flatMap Field.keys) = true ∨
      m.isIgnorable = true) ↔
      ∀ m ∈ ms, m.isNamed (record.fields.flatMap Field.keys) = true ∨ m.isIgnorable = true :=
    forall₂_congr fun m hm => by rw [isNamed_frame (hpush m hm)]
  rw [Envelope.decode_eq_ok_iff]
  simp only [Envelope.decode_fields_object_iff hraw, Envelope.ofFields_acknowledgement_iff,
    hmembers]
  constructor
  · rintro ⟨f, ⟨hms, hf⟩, hop, _, rfl⟩
    exact ⟨hms, f, hf, hop, rfl⟩
  · rintro ⟨hms, f, hf, hop, rfl⟩
    refine ⟨f, ⟨hms, hf⟩, hop, ?_, rfl⟩
    simp [Envelope.HasTopic, ((describes_iff hpush).1 hf).1]

/-- An object without a key of a push decodes as an acknowledgement of its own exactly if it states
one and is one as a frame. -/
theorem decode_object_iff (hpush : ∀ m ∈ ms, m.isNamed pushKeys = false) {ending : Ending}
    {raw : List UInt8} (hraw : Spells raw (.object ms ending)) {a : Acknowledgement} :
    Json.decode codec raw = .ok a ↔
      Envelope.decode raw = .ok (.acknowledgement a) ∧ IsStated ms := by
  rw [frame_iff_describes hpush hraw]
  unfold codec
  rw [Record.decode_object_iff nodup_keys hraw, hold_iff_describes hpush]
  constructor
  · rintro ⟨hms, hstated, f, hf, rfl⟩
    obtain ⟨op, hop⟩ := op_of_isStated hstated hf.op
    have hoperation : Envelope.HasOperation f := by simp [Envelope.HasOperation, hop]
    exact ⟨⟨hms, f, hf, hoperation, rfl⟩, hstated⟩
  · rintro ⟨⟨hms, f, hf, _, rfl⟩, hstated⟩
    exact ⟨hms, hstated, f, hf, rfl⟩

/-- The object that an acknowledgement is written as has no key of a push. -/
theorem not_isNamed_members (a : Acknowledgement) :
    ∀ m ∈ record.members a, m.isNamed pushKeys = false :=
  fun _ hm => Entry.not_isNamed disjoint_pushKeys (isNamed_of_mem_members hm)

/-- An object without a key of a push decodes as an acknowledgement of its own exactly if it is that
acknowledgement as a frame, has an operation, and null stands for no value with a default.  So the
text of an acknowledgement is a frame that decodes as it. -/
theorem decode_iff_frame :
    (∀ (raw : List UInt8) (ms : List (Entry Node)) (ending : Ending),
      Spells raw (.object ms ending) →
      (∀ m ∈ ms, m.isNamed ["topic", "type", "ts", "creationTime", "data"] = false) →
      ∀ a, Json.decode codec raw = .ok a ↔
        Envelope.decode raw = .ok (.acknowledgement a) ∧
          (∃ m ∈ ms, m.isNamed ["op"] = true ∧ m.value ≠ .null) ∧
          ∀ m ∈ ms, m.isNamed ["success", "ret_msg", "conn_id", "args"] = true →
            m.value ≠ .null) ∧
    ∀ a : Acknowledgement, a.IsProper →
      Envelope.decode (octets (encode codec a)) = .ok (.acknowledgement a) := by
  constructor
  · intro raw ms ending hraw hpush a
    rw [decode_object_iff hpush hraw]
    exact and_congr_right fun _ => ⟨fun h => ⟨h.op, h.others⟩, fun h => ⟨h.1, h.2⟩⟩
  · intro a ha
    have hreturns := returns ha
    have hspells : Spells (octets (encode codec a)) (.object (record.members a) (.closed [])) :=
      hreturns.plain.spells
    have hdecode := hreturns.decode_encode (by decide)
    exact ((decode_object_iff (not_isNamed_members a) hspells).1 hdecode).1

/-- The answer to a ping from a private connection, with a member of no field. -/
def pongMembers : List (Entry Node) := [
  member "unlisted" (ofList [.null]),
  member "args" (ofList [ofString "1675418560633"]),
  member "req_id" .null,
  member "op" (ofString "pong")]

theorem decode_iff_frame_pong :
    Envelope.decode (ofMembers pongMembers).text =
        .ok (.acknowledgement ⟨.pong, false, "", "", none, ["1675418560633"]⟩) ∧
      Envelope.decode (octets (encode codec ⟨.unknown "Ping", true, "\"", "", some "", []⟩)) =
        .ok (.acknowledgement ⟨.unknown "Ping", true, "\"", "", some "", []⟩) := by
  obtain ⟨hobjects, htexts⟩ := decode_iff_frame
  constructor
  · refine ((hobjects _ pongMembers (.closed []) (spells_text (by decide)) (by decide) _).1 ?_).1
    rw [decode_of_spells codec (spells_text (by decide))]
    rfl
  · refine htexts _ ?_
    rintro raw ⟨⟩
    decide

end Acknowledgement

end MarketFeed
