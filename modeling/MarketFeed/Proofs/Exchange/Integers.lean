import MarketFeed.Proofs.Exchange.Capture
import MarketFeed.Proofs.Exchange.Push
import MarketFeed.Proofs.Exchange.Report
import MarketFeed.Proofs.Json.Respelling

/-!
# Integers of the exchange

The exchange writes an integer as a numeral or as a string.  An integer of 64 bits is read from
exactly the trees that denote one, themselves or by a text that they wrap, and a frame says the same
in whatever way the time of its push and the integers of its payload are spelled
(`Event.spelling_irrelevant`).
-/

namespace MarketFeed

open Json Json.Node

/-- The paths to the integers in the payload of a topic. -/
def TopicType.integers : TopicType → List (List Step)
  | orderBook => [[.field ["u"] 3], [.field ["seq"] 4]]
  | kline => [[.element, .field ["start"] 0], [.element, .field ["end"] 1],
      [.element, .field ["timestamp"] 10]]
  | order => [[.element, .field ["createdTime"] 24], [.element, .field ["updatedTime"] 25]]
  | _ => []

theorem TopicType.length_lt {type : TopicType} {path : List Step} (h : path ∈ type.integers) :
    path.length < allLevels := by
  have hlength : ∀ path ∈ type.integers, path.length < allLevels := by
    cases type with
    | orderBook | kline | order => simp [integers, allLevels]
    | _ => exact List.forall_mem_nil _
  exact hlength path h

namespace Envelope

/-- The step from a frame to the time of its push. -/
def timeStep : Step := .field ["ts", "creationTime"] 8

/-- Two frames differ in the spelling of the time of a push. -/
inductive RespellsTime (raw raw' : List UInt8) : Prop
  | intro {place : Place} {v w : Node} (hplace : place.IsAt timeStep) (hvw : SameInteger v w)
    (hraw : Spells raw (place.fill v)) (hraw' : Spells raw' (place.fill w))

/-- Two frames, the first of which is a push, differ in the spelling of an integer in its
payload. -/
inductive RespellsPayload (raw raw' : List UInt8) : Prop
  | intro {p : Push} {place : Place} {places : List Place} {path : List Step} {v w : Node}
    (hpush : decode raw = .ok (.push p)) (hplace : place.IsAt dataStep)
    (hpath : path ∈ p.topicType.integers) (hplaces : List.Forall₂ Place.IsAt places path)
    (hvw : SameInteger v w) (hraw : Spells raw (place.fill (Place.fillAll places v)))
    (hraw' : Spells raw' (place.fill (Place.fillAll places w)))

end Envelope

/-! ### Payloads -/

theorem OrderReport.readsAlike_integer {i : Nat} {label key : String}
    (hf : Order.record.fields[i]? = some (.required label key .word)) :
    codec.ReadsAlike [.field [key] i] SameInteger := by
  refine Codec.readsAlike_field (f := .required label key .word)
    (fun place hplace levels v w hvw x hread => ?_) Codec.readsAlike_word
  obtain ⟨ref, rfl⟩ := FieldRef.exists_of_getElem? hf
  obtain ⟨hvalue, hfill⟩ := read_fill ref hplace hread
  have hsame := hfill w _ (hvw _ hvalue)
  rwa [ref.set_get] at hsame

theorem BookPayload.readsAlike {path : List Step} (h : path ∈ TopicType.orderBook.integers) :
    codec.ReadsAlike path SameInteger := by
  simp only [TopicType.integers, List.mem_cons, List.not_mem_nil, or_false] at h
  obtain rfl | rfl := h
  · exact Codec.readsAlike_integer nodup_keys rfl
  · exact Codec.readsAlike_integer nodup_keys rfl

theorem Candle.readsAlike {path : List Step} (h : path ∈ TopicType.kline.integers) :
    (Codec.list codec).ReadsAlike path SameInteger := by
  simp only [TopicType.integers, List.mem_cons, List.not_mem_nil, or_false] at h
  obtain rfl | rfl | rfl := h
  · exact Codec.readsAlike_list (Codec.readsAlike_integer nodup_keys rfl)
  · exact Codec.readsAlike_list (Codec.readsAlike_integer nodup_keys rfl)
  · exact Codec.readsAlike_list (Codec.readsAlike_integer nodup_keys rfl)

theorem OrderReport.readsAlike {path : List Step} (h : path ∈ TopicType.order.integers) :
    (Codec.list codec).ReadsAlike path SameInteger := by
  simp only [TopicType.integers, List.mem_cons, List.not_mem_nil, or_false] at h
  obtain rfl | rfl := h
  · exact Codec.readsAlike_list (readsAlike_integer rfl)
  · exact Codec.readsAlike_list (readsAlike_integer rfl)

theorem FrameFields.readsAlike_time : record.codec.ReadsAlike [Envelope.timeStep] SameInteger :=
  Codec.readsAlike_record nodup_keys (i := 8) rfl
    (Codec.readsAlike_optional (fun _ _ _ ⟨_, hv, hw⟩ => ⟨Codec.not_isNull_of_meansNat hv,
      Codec.not_isNull_of_meansNat hw⟩) Codec.readsAlike_word)

namespace Push

/-- What is read alike from another payload is the same event. -/
theorem yields_respelled {p : Push} {payload : String} {path : List Step}
    (hpath : path ∈ p.topicType.integers)
    (hread : ∀ {α : Type} (codec : Codec α), codec.ReadsAlike path SameInteger → ∀ x,
      Json.decode codec (octets p.payload) = .ok x → Json.decode codec (octets payload) = .ok x)
    {event : Event} (h : p.Yields event) : ({ p with payload } : Push).Yields event := by
  cases h with
  | book htype hbook =>
    rw [htype] at hpath
    exact .book htype (hread _ (BookPayload.readsAlike hpath) _ hbook)
  | candles htype hsymbol hcandles hne =>
    rw [htype] at hpath
    exact .candles htype hsymbol (hread _ (Candle.readsAlike hpath) _ hcandles) hne
  | orders htype horders =>
    rw [htype] at hpath
    exact .orders htype (hread _ (OrderReport.readsAlike hpath) _ horders)
  | wallets htype _ =>
    rw [htype] at hpath
    cases hpath

end Push

/-! ### Frames -/

namespace Envelope

variable {raw raw' : List UInt8}

theorem decode_time (h : RespellsTime raw raw') (e : Envelope) :
    decode raw = .ok e ↔ decode raw' = .ok e := by
  obtain @⟨place, v, w, hplace, hvw, hraw, hraw'⟩ := h
  have hplaces : List.Forall₂ Place.IsAt [place] [timeStep] := .cons hplace .nil
  have hread := FrameFields.readsAlike_time allLevels (by decide) [place] v w hplaces hvw
  rw [decode_eq_ok_iff, decode_eq_ok_iff, decode_of_spells _ hraw, decode_of_spells _ hraw']
  exact exists_congr fun f => and_congr_left fun _ => hread f

/-- A push with an integer of its payload spelled otherwise is a push that yields the same. -/
theorem decode_payload (h : RespellsPayload raw raw') :
    ∃ p payload, decode raw = .ok (.push p) ∧ decode raw' = .ok (.push { p with payload }) ∧
      ∀ event, p.event = .ok event ↔ ({ p with payload } : Push).event = .ok event := by
  obtain @⟨p, place, places, path, v, w, hpush, hplace, hpath, hplaces, hvw, hraw, hraw'⟩ := h
  have hv := Place.isGrammatical_of_fill (isGrammatical_of_spells hraw)
  have hw := Place.isGrammatical_of_fill (isGrammatical_of_spells hraw')
  obtain ⟨_, hpayload⟩ := payload_of_fill hraw hplace hpush
  -- The octets around the integer are those of a text, and so are those of either spelling.
  have hoctets : Utf8.IsText (Place.fillAll places w).text := by
    obtain ⟨n, _, hn⟩ := hvw
    have hold : Utf8.IsText ([] ++ (Place.fillAll places v).text ++ []) := by
      rw [List.append_nil, List.nil_append, ← hpayload]
      exact isText_octets _
    have hnew := Place.isText_fillAll hv hold (hn.isText (Place.isGrammatical_of_fillAll hw))
    rwa [List.append_nil, List.nil_append] at hnew
  obtain ⟨text, htext⟩ : ∃ text, octets text = (Place.fillAll places w).text :=
    ⟨_, octets_textOf hoctets⟩
  have hspells : Spells (octets p.payload) (Place.fillAll places v) := hpayload ▸ spells_text hv
  have hspells' : Spells (octets text) (Place.fillAll places w) := htext ▸ spells_text hw
  have hread {α : Type} (codec : Codec α) (hcodec : codec.ReadsAlike path SameInteger) (x : α) :
      Json.decode codec (octets p.payload) = .ok x ↔
        Json.decode codec (octets text) = .ok x := by
    rw [decode_of_spells codec hspells, decode_of_spells codec hspells']
    exact hcodec allLevels (TopicType.length_lt hpath) places v w hplaces hvw x
  have hnull : Place.fillAll places w ≠ .null := Place.fillAll_ne_null hvw.ne_null.2
  refine ⟨p, text, hpush, decode_fill hraw hraw' hplace hpush hnull htext.symm, fun event => ?_⟩
  rw [Push.event_eq_ok_iff, Push.event_eq_ok_iff]
  constructor
  · exact Push.yields_respelled hpath fun codec hcodec x => (hread codec hcodec x).1
  · exact @Push.yields_respelled { p with payload := text } p.payload path hpath
      (fun codec hcodec x => (hread codec hcodec x).2) event

end Envelope

/-- How an integer of 64 bits is read from a tree, and one that may be null: by what the tree means,
which is what it denotes unless it wraps a text. -/
structure Json.Node.ReadsInteger (levels : Nat) (t : Node) : Prop where
  value (n : Nat) : (∃ m, Codec.word.read levels t = .ok m ∧ m.toNat = n) ↔
    t.MeansNat levels n ∧ n < UInt64.size
  refusal : (∃ fault, Codec.word.read levels t = .error fault) ↔
    ∀ n < UInt64.size, ¬t.MeansNat levels n
  null : Codec.word.optional.read levels t = .ok none ↔ t.StandsFor levels .null
  other : ¬t.StandsFor levels .null →
    Codec.word.optional.read levels t = (Codec.word.read levels t).map some
  bare : (∀ s, ¬t.Wraps s) →
    (∀ n, t.MeansNat levels n ↔ t.DenotesNat n) ∧ (t.StandsFor levels .null ↔ t = .null)

theorem Json.Node.readsInteger (levels : Nat) (t : Node) : t.ReadsInteger levels := by
  have hvalue (n : Nat) : (∃ m, Codec.word.read levels t = .ok m ∧ m.toNat = n) ↔
      t.MeansNat levels n ∧ n < UInt64.size := by
    constructor
    · rintro ⟨m, hm, rfl⟩
      exact ⟨Codec.word_read_iff.1 hm, m.toNat_lt⟩
    · rintro ⟨hn, hlt⟩
      refine ⟨UInt64.ofNat n, Codec.word_read_iff.2 ?_, UInt64.toNat_ofNat_of_lt' hlt⟩
      rwa [UInt64.toNat_ofNat_of_lt' hlt]
  have hnull : Codec.word.isNull levels t = true ↔ t.StandsFor levels .null :=
    Codec.word_isNull_iff.trans Value.ofNode_eq_null_iff
  refine ⟨hvalue, ?_, Codec.optional_read_eq_none_iff.trans hnull, fun hother => ?_,
    fun hwraps => ?_⟩
  · constructor
    · rintro ⟨fault, hfault⟩ n hlt hn
      obtain ⟨m, hm, _⟩ := (hvalue n).2 ⟨hn, hlt⟩
      rw [hfault] at hm
      cases hm
    · intro hnone
      cases hread : Codec.word.read levels t with
      | error fault => exact ⟨fault, rfl⟩
      | ok m => exact absurd (Codec.word_read_iff.1 hread) (hnone _ m.toNat_lt)
  · rw [← hnull, Bool.not_eq_true] at hother
    exact Codec.optional_read_of_not_isNull hother
  · exact ⟨fun n => meansNat_iff hwraps, (standsFor_iff hwraps).trans eq_comm⟩

/-- An integer of 64 bits is read from exactly the trees that mean one.  A frame in which the time
is spelled otherwise is the same, and one in which that or an integer of the payload is spelled
otherwise is read as the same event. -/
theorem Event.spelling_irrelevant (table : IntervalTable) :
    (∀ levels t, Node.ReadsInteger levels t) ∧
    (∀ raw raw', Envelope.RespellsTime raw raw' → ∀ e,
      Envelope.decode raw = .ok e ↔ Envelope.decode raw' = .ok e) ∧
    ∀ raw raw', Envelope.RespellsTime raw raw' ∨ Envelope.RespellsPayload raw raw' → ∀ event,
      (table.feed.read raw).result = .ok event ↔ (table.feed.read raw').result = .ok event := by
  refine ⟨readsInteger, fun raw raw' h => Envelope.decode_time h, fun raw raw' h event => ?_⟩
  change (read raw).result = .ok event ↔ (read raw').result = .ok event
  rw [result_read, result_read]
  obtain h | h := h
  · simp only [ofFrame_eq_ok_iff, Envelope.decode_time h]
  · obtain ⟨p, payload, hpush, hpush', hevent⟩ := Envelope.decode_payload h
    rw [ofFrame_of_push hpush, ofFrame_of_push hpush']
    exact hevent event

/-- A frame that pushes a book, with a given update number. -/
def numberedFrame (updateId : Node) : Node :=
  ofPairs [
    ("topic", ofString "orderbook.1.BTCUSDT"),
    ("type", ofString "delta"),
    ("ts", ofNat 1672304484978),
    ("data", ofPairs [
      ("s", ofString "BTCUSDT"),
      ("b", ofList []),
      ("a", ofList []),
      ("u", updateId),
      ("seq", ofNat 7961638724)])]

theorem isPlain_numberedFrame {t : Node} (h : t.IsPlain) : (numberedFrame t).IsPlain :=
  isPlain_ofPairs (by simp [isPlain_ofList, isPlain_ofPairs, h])

/-- The payload of that frame. -/
def numberedPlace : Place :=
  .member [member "topic" (ofString "orderbook.1.BTCUSDT"), member "type" (ofString "delta"),
    member "ts" (ofNat 1672304484978)] [] (StringPart.encode "data") (some ([], [])) [] []
    (.closed [])

/-- The update number in the payload. -/
def updateIdPlace : Place :=
  .member [member "s" (ofString "BTCUSDT"), member "b" (ofList []), member "a" (ofList [])] []
    (StringPart.encode "u") (some ([], [])) [] [member "seq" (ofNat 7961638724)] (.closed [])

theorem sameInteger_one : SameInteger (ofNat 1) (ofString " +01\u2003") := by
  have hone : (ofNat 1).DenotesNat 1 := ⟨[1], rfl, rfl⟩
  have hspelled : (ofString " +01\u2003").DenotesNat 1 := by
    refine ⟨" +01\u2003", string?_ofString _, ?_⟩
    exact ⟨[' '], ['+'], [0, 1], ['\u2003'], rfl, List.all_eq_true.1 (by decide),
      List.all_eq_true.1 (by decide), Or.inr rfl, by decide, rfl⟩
  exact ⟨1, hone.means _, hspelled.means _⟩

theorem respellsPayload_one :
    Envelope.RespellsPayload (numberedFrame (ofNat 1)).text
      (numberedFrame (ofString " +01\u2003")).text := by
  have hpush : Envelope.decode (numberedFrame (ofNat 1)).text =
      .ok (.push ⟨"orderbook.1.BTCUSDT", .delta, 1672304484978,
        textOf (updateIdPlace.fill (ofNat 1)).text⟩) := by
    decide +kernel
  refine @Envelope.RespellsPayload.intro _ _ _ numberedPlace [updateIdPlace] _ _ _ hpush ?_
    List.mem_cons_self (.cons ?_ .nil) sameInteger_one (spells_text ?_) (spells_text ?_)
  · exact ⟨"data", by decide, StringPart.decode?_encode _⟩
  · exact ⟨"u", by decide, StringPart.decode?_encode _⟩
  · exact (isPlain_numberedFrame (isPlain_ofNat 1)).grammatical
  · exact (isPlain_numberedFrame (isPlain_ofString _)).grammatical

theorem Event.spelling_irrelevant_one :
    (IntervalTable.standard.feed.read (numberedFrame (ofString " +01\u2003")).text).result =
      .ok (.book ⟨⟨"BTCUSDT", [], [], 1, 7961638724⟩, .delta⟩) := by
  have hread : (IntervalTable.standard.feed.read (numberedFrame (ofNat 1)).text).result =
      .ok (.book ⟨⟨"BTCUSDT", [], [], 1, 7961638724⟩, .delta⟩) := by
    decide +kernel
  obtain ⟨_, _, hsame⟩ := Event.spelling_irrelevant IntervalTable.standard
  exact (hsame _ _ (Or.inr respellsPayload_one) _).1 hread

/-- Objects are read as an integer and as none, although they are neither an integer in any spelling
nor null. -/
theorem Event.objects_read_as_integers :
    ((∀ n, ¬(wrap "42").DenotesNat n) ∧ Codec.word.read allLevels (wrap "42") = .ok 42) ∧
      (wrap "null" ≠ .null ∧ Codec.word.optional.read allLevels (wrap "null") = .ok none) := by
  refine ⟨⟨fun _ h => h, ?_⟩, nofun, ?_⟩
  · decide +kernel
  · decide +kernel

end MarketFeed
