import MarketFeed.Proofs.Exchange.Classification
import MarketFeed.Proofs.Json.Ends
import MarketFeed.Proofs.Json.FieldRef
import MarketFeed.Proofs.Json.Integer
import MarketFeed.Proofs.Json.Writing

/-!
# The payload as it is written

The payload of a push is the part of the frame that is written for its data, octet for octet, and
any other payload that is written there would have been captured instead.  In turn an object with a
topic, a type, a time and some data is decoded as the push with the text of that data as its payload
(`Envelope.captures_payload`).
-/

namespace MarketFeed

open Json Json.Node

theorem Json.Codec.readChoice_string {α : Type} {table : List (String × α)} (levels : Nat)
    {body : List StringPart} {name : String} {x : α} (hname : StringPart.decode? body = some name)
    (hx : table.lookup name = some x) : readChoice table levels (.string body) = .ok x := by
  have htext : readText "a string" (.string body) = .ok name := readText_iff.2 hname
  rw [readChoice, htext]
  exact lookUp_eq_ok_iff.2 hx

theorem octets_injective {s s' : String} (h : octets s = octets s') : s = s' := by
  rw [← textOf_octets s, h, textOf_octets]

namespace FrameFields

/-- The field for the data of a push. -/
def dataField : Field := maybe "data" .captured

/-- Where the data is among the fields of a frame. -/
def dataRef : FieldRef record.fields dataField :=
  .there <| .there <| .there <| .there <| .there <| .there <| .there <| .there <| .there .here

theorem ofValues_dataRef (data : Option String) (xs : Values record.fields) :
    record.ofValues (dataRef.set data xs) = { record.ofValues xs with data } := rfl

end FrameFields

/-- A text of the grammar other than null, without blanks at its ends. -/
structure IsPayload (text : String) : Prop where
  grammatical : ∃ t, Spells (octets text) t
  trimmed : IsTrimmed (octets text)
  ne_null : text ≠ "null"

namespace Envelope

/-- The step from a frame to its data. -/
def dataStep : Step := .field ["data"] 9

/-- The payload of a push is written as the data of its frame, with the given octets before and
behind it, and so would any other payload be. -/
structure Encloses (raw front back : List UInt8) (p : Push) : Prop where
  data : ∃ frame payload, Spells raw frame ∧ frame.field? ["data"] 9 = some payload ∧
    payload.text = octets p.payload
  octets : raw = front ++ octets p.payload ++ back
  other : ∀ text, IsPayload text →
    decode (front ++ MarketFeed.octets text ++ back) = .ok (.push { p with payload := text })

/-- Members have what makes up a push, in whatever order, and nothing of an acknowledgement. -/
structure Delivers (ms : List (Entry Node)) (p : Push) : Prop where
  topic : ∃ v, valuesNamed ["topic"] ms = [v] ∧ v.string? = some p.topic
  kind : ∃ v, valuesNamed ["type"] ms = [v] ∧ v.string? = some p.kind.text
  timestamp : ∃ v, valuesNamed ["ts", "creationTime"] ms = [v] ∧ v.DenotesNat p.timestamp.toNat
  data : ∃ v, valuesNamed ["data"] ms = [v] ∧ v.text = octets p.payload
  others : ∀ m ∈ ms, ∃ key, StringPart.decode? m.key = some key ∧
    key ∉ ["success", "ret_msg", "req_id", "conn_id", "op", "args"]

/-! ### What is captured -/

theorem ne_null_of_text {t : Node} {text : String} (ht : t.text = octets text)
    (hne : text ≠ "null") : t ≠ .null := by
  rintro rfl
  exact hne (octets_injective (ht.symm.trans (by decide)))

/-- The payload of a push is the text of the value that is its data. -/
theorem payload_of_fill {raw : List UInt8} {place : Place} {v : Node} {p : Push}
    (hraw : Spells raw (place.fill v)) (hplace : place.IsAt dataStep)
    (h : decode raw = .ok (.push p)) : v ≠ .null ∧ octets p.payload = v.text := by
  obtain ⟨f, hf, hpush⟩ := decode_eq_ok_iff.1 h
  rw [decode_of_spells FrameFields.record.codec hraw] at hf
  obtain ⟨xs, rfl, hread, _⟩ :=
    Record.read_fill FrameFields.nodup_keys FrameFields.dataRef hplace hf
  obtain ⟨_, hfields⟩ := ofFields_eq_push_iff.1 hpush
  obtain ⟨_, hdata, _⟩ := FrameFields.push_eq_ok_iff.1 hfields
  have hpayload : FrameFields.dataRef.get xs = some p.payload := hdata
  rw [hpayload] at hread
  obtain ⟨hnull, hcaptured⟩ := Codec.optional_read_eq_some_iff.1 hread
  exact ⟨not_isNull_iff.1 hnull, Codec.captured_read hcaptured⟩

/-- With another value as its data a frame is decoded as the push with that as its payload. -/
theorem decode_fill {raw raw' : List UInt8} {place : Place} {v w : Node} {p : Push} {text : String}
    (hraw : Spells raw (place.fill v)) (hraw' : Spells raw' (place.fill w))
    (hplace : place.IsAt dataStep) (h : decode raw = .ok (.push p)) (hw : w ≠ .null)
    (htext : w.text = octets text) : decode raw' = .ok (.push { p with payload := text }) := by
  obtain ⟨f, hf, hpush⟩ := decode_eq_ok_iff.1 h
  rw [decode_of_spells FrameFields.record.codec hraw] at hf
  have hsound : w.isSound = true := (Bool.and_eq_true_iff.1
    (Place.isGrammatical_of_fill (isGrammatical_of_spells hraw'))).2
  have hread : FrameFields.dataField.codec.read memberLevels w = .ok (some text) :=
    Codec.optional_read_eq_some_iff.2
      ⟨not_isNull_iff.2 hw, Codec.captured_read_iff.2 ⟨hsound, htext.symm⟩⟩
  obtain ⟨xs, rfl, _, hfill⟩ :=
    Record.read_fill FrameFields.nodup_keys FrameFields.dataRef hplace hf
  have hf' := hfill w (some text) hread
  rw [FrameFields.ofValues_dataRef] at hf'
  refine decode_eq_ok_iff.2 ⟨_, (decode_of_spells FrameFields.record.codec hraw').trans hf', ?_⟩
  obtain ⟨hoperational, hfields⟩ := ofFields_eq_push_iff.1 hpush
  obtain ⟨htopic, _, htimestamp, hkind⟩ := FrameFields.push_eq_ok_iff.1 hfields
  exact ofFields_eq_push_iff.2
    ⟨hoperational, FrameFields.push_eq_ok_iff.2 ⟨htopic, rfl, htimestamp, hkind⟩⟩

theorem isPayload_of_push {raw : List UInt8} {p : Push} (h : decode raw = .ok (.push p)) :
    IsPayload p.payload := by
  obtain ⟨frame, v, hraw, hfield, hnull, htext⟩ := captured_payload h
  have hv := isGrammatical_of_field? (isGrammatical_of_spells hraw) hfield
  have hspells : Spells (octets p.payload) v := htext ▸ spells_text hv
  refine ⟨⟨v, hspells⟩, htext ▸ isTrimmed_text hv, fun hpayload => hnull ?_⟩
  rw [hpayload] at hspells
  exact spells_unique hspells ⟨[], [], rfl, rfl, rfl, by decide⟩

theorem exists_encloses {raw : List UInt8} {p : Push} (h : decode raw = .ok (.push p)) :
    ∃ front back, Encloses raw front back p := by
  obtain ⟨_, v, hraw, hfield, _, htext⟩ := captured_payload h
  obtain ⟨place, hplace, rfl⟩ := Place.exists_of_field? hfield
  obtain ⟨front, back, haround⟩ := place.exists_around
  have hspells := hraw
  obtain ⟨before, after, hbefore, hafter, hgrammatical, rfl⟩ := hspells
  refine ⟨before ++ front, back ++ after, ⟨_, v, hraw, hfield, htext.symm⟩, ?_, ?_⟩
  · rw [haround, htext]
    simp
  · rintro text ⟨⟨w, hw⟩, htrimmed, hne⟩
    have hwtext := text_eq_of_spells hw htrimmed
    refine decode_fill hraw ⟨before, after, hbefore, hafter, ?_, ?_⟩ hplace h
      (ne_null_of_text hwtext hne) hwtext
    · exact Place.isGrammatical_fill hgrammatical (isGrammatical_of_spells hw)
    · rw [haround, hwtext]
      simp

/-! ### What is delivered -/

theorem describes_of_delivers {ms : List (Entry Node)} {p : Push} (h : Delivers ms p)
    (hms : ∀ m ∈ ms, m.value.isSound = true) (hne : p.payload ≠ "null") :
    Describes ms ⟨none, none, none, none, none, none, some p.topic, some p.kind, some p.timestamp,
      some p.payload⟩ := by
  have hnone {key : String}
      (hkey : key ∈ ["success", "ret_msg", "req_id", "conn_id", "op", "args"]) :
      valuesNamed [key] ms = [] := by
    refine List.map_eq_nil_iff.2 (List.filter_eq_nil_iff.2 fun m hm hnamed => ?_)
    obtain ⟨k, hk, hother⟩ := h.others m hm
    rw [Entry.isNamed_of_decode? hk, List.contains_iff_mem, List.mem_singleton] at hnamed
    exact hother (hnamed ▸ hkey)
  obtain ⟨topic, htopic, htopicText⟩ := h.topic
  obtain ⟨_, hkind, hname⟩ := h.kind
  obtain ⟨kind, rfl, hkindText⟩ := exists_of_string? hname
  obtain ⟨timestamp, htimestamp, hnat⟩ := h.timestamp
  obtain ⟨data, hdata, htext⟩ := h.data
  have htopicNull : topic ≠ .null := by
    rintro rfl
    cases htopicText
  have hkindRead : PushKind.codec.read memberLevels (.string kind) = .ok p.kind :=
    Codec.readChoice_string memberLevels hkindText (by cases p.kind <;> decide)
  have htime := hnat.means memberLevels
  have hdataSound : data.isSound = true := by
    have hmem : data ∈ valuesNamed ["data"] ms := hdata ▸ List.mem_singleton_self data
    obtain ⟨m, hm, rfl⟩ := List.mem_map.1 hmem
    exact hms m (List.mem_of_mem_filter hm)
  exact {
    success := Or.inl (hnone (by decide))
    retMsg := Or.inl (hnone (by decide))
    reqId := Or.inl (hnone (by decide))
    connId := Or.inl (hnone (by decide))
    op := Or.inl (hnone (by decide))
    args := Or.inl (hnone (by decide))
    topic := ⟨topic, htopic, htopicNull, Codec.readText_iff.2 htopicText⟩
    kind := ⟨_, hkind, nofun, hkindRead⟩
    timestamp := ⟨timestamp, htimestamp, htime.not_standsFor_null, Codec.word_read_iff.2 htime⟩
    data := ⟨data, hdata, ne_null_of_text htext hne,
      Codec.captured_read_iff.2 ⟨hdataSound, htext.symm⟩⟩ }

/-- An object with what makes up a push is decoded as that push. -/
theorem decode_of_delivers {raw : List UInt8} {ms : List (Entry Node)} {ending : Ending} {p : Push}
    (hraw : Spells raw (object ms ending)) (h : Delivers ms p) (hne : p.payload ≠ "null") :
    decode raw = .ok (.push p) := by
  have hmembers := ((isGrammatical_object ms ending).1 (isGrammatical_of_spells hraw)).1
  have hdescribes := describes_of_delivers h
    (fun m hm => (Bool.and_eq_true_iff.1 (hmembers m hm).value).2) hne
  have hkeys : ∀ m ∈ ms, (StringPart.decode? m.key).isSome = true := fun m hm => by
    obtain ⟨key, hkey, _⟩ := h.others m hm
    rw [hkey]
    rfl
  refine ((classified_of_decode ((decode_fields_iff hraw hkeys).2 hdescribes)).push p).2 ?_
  exact ⟨by simp [HasOperation], rfl, rfl, rfl, Or.inl rfl⟩

/-- A push has as its payload what is written for its data, and for whatever is written there the
frame is the push with that as its payload.  Whatever the topic, the kind, the time and the payload
are, any object with them and without fields of an acknowledgement is decoded as that push. -/
theorem captures_payload (raw : List UInt8) :
    (∀ p, decode raw = .ok (.push p) →
      IsPayload p.payload ∧ ∃ front back, Encloses raw front back p) ∧
    ∀ ms ending p, Spells raw (object ms ending) → Delivers ms p → p.payload ≠ "null" →
      decode raw = .ok (.push p) :=
  ⟨fun _ h => ⟨isPayload_of_push h, exists_encloses h⟩, fun _ _ _ => decode_of_delivers⟩

/-- A bracket in a string, inside the given number of arrays. -/
def nested : Nat → Node
  | 0 => ofString "]"
  | n + 1 => ofList [nested n]

theorem isPlain_nested (n : Nat) : (nested n).IsPlain := by
  induction n with
  | zero => exact isPlain_ofString _
  | succ n ih => exact isPlain_ofList (List.forall_mem_singleton.2 ih)

/-- The push of arrays that are nested more deeply than any payload may be. -/
def nestedPush : Push where
  topic := "order"
  kind := .delta
  timestamp := 7
  payload := textOf (nested 200).text

/-- A member that no field has, with an octet in it that no text has. -/
def strayMember : Entry Node :=
  { member "stray" .null with value := .string [.octet 0xFF] }

/-- The members of a frame with that push. -/
def nestedMembers : List (Entry Node) := [
  strayMember,
  { member "data" (nested 200) with before := [0x20], after := [0x0A] },
  member "ts" (ofNat 7),
  member "type" (ofString "delta"),
  member "topic" (ofString "order")]

theorem delivers_nested : Delivers nestedMembers nestedPush where
  topic := ⟨_, rfl, rfl⟩
  kind := ⟨_, rfl, rfl⟩
  timestamp := ⟨_, rfl, [7], rfl, rfl⟩
  data := ⟨_, rfl, (octets_textOf (isPlain_nested 200).text).symm⟩
  others := by
    simp only [nestedMembers, List.forall_mem_cons]
    exact ⟨⟨"stray", rfl, by decide⟩, ⟨"data", rfl, by decide⟩, ⟨"ts", rfl, by decide⟩,
      ⟨"type", rfl, by decide⟩, ⟨"topic", rfl, by decide⟩, List.forall_mem_nil _⟩

theorem spells_nested : Spells (ofMembers nestedMembers).text (ofMembers nestedMembers) := by
  have hdata : IsMember (member "data" (nested 200)) := (isMember_member (isPlain_nested 200)).1
  refine spells_text ((isGrammatical_object _ _).2 ⟨?_, [], rfl, rfl, fun _ => rfl⟩)
  simp only [nestedMembers, List.forall_mem_cons]
  exact ⟨⟨rfl, rfl, ⟨[], [], rfl, rfl, rfl⟩, rfl, rfl⟩,
    ⟨rfl, hdata.key, hdata.colon, hdata.value, rfl⟩, (isMember_member (isPlain_ofNat 7)).1,
    (isMember_member (isPlain_ofString _)).1, (isMember_member (isPlain_ofString _)).1,
    List.forall_mem_nil _⟩

theorem nestedPush_ne_null : nestedPush.payload ≠ "null" := by
  intro h
  have htext : octets "null" = (nested 200).text :=
    h ▸ octets_textOf (isPlain_nested 200).text
  have hhead : (nested 200).text.head? = some Octet.openBracket := rfl
  rw [← htext] at hhead
  exact absurd hhead (by decide)

theorem captures_payload_nested :
    decode (ofMembers nestedMembers).text = .ok (.push nestedPush) ∧
      ∃ front back, Encloses (ofMembers nestedMembers).text front back nestedPush := by
  obtain ⟨hcaptured, hdelivered⟩ := captures_payload (ofMembers nestedMembers).text
  have hpush : decode (ofMembers nestedMembers).text = .ok (.push nestedPush) :=
    hdelivered _ _ nestedPush spells_nested delivers_nested nestedPush_ne_null
  exact ⟨hpush, (hcaptured nestedPush hpush).2⟩

end Envelope

end MarketFeed
