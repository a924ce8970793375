import MarketFeed.Proofs.Exchange.Frame
import MarketFeed.Proofs.Json.Integer
import MarketFeed.Proofs.Topic

/-!
# What makes a frame what it is

Of the members of a frame only those with the keys of its fields count.  They spoil the frame if a
field has two of them, or one that is neither null nor a value of the field (`Envelope.IsSpoilt`),
where the time may also stand for null; otherwise they describe the fields (`Envelope.Describes`),
and what the frame is follows from which fields are there (`Envelope.Classified`).
-/

namespace MarketFeed

namespace Envelope

open Json Json.Node

/-- The value that members give to a field, unless no member, or an absent value, stands for it. -/
def Says {α : Type} (ms : List (Entry Node)) (keys : List String) (isAbsent : Node → Prop)
    (codec : Codec α) : Option α → Prop
  | none => valuesNamed keys ms = [] ∨ ∃ v, valuesNamed keys ms = [v] ∧ isAbsent v
  | some x => ∃ v, valuesNamed keys ms = [v] ∧ ¬isAbsent v ∧ codec.read memberLevels v = .ok x

/-- Members that give a field no value: there are several, or one that is neither absent nor a value
of the field. -/
def Spoils {α : Type} (ms : List (Entry Node)) (keys : List String) (isAbsent : Node → Prop)
    (codec : Codec α) : Prop :=
  1 < (valuesNamed keys ms).length ∨
    ∃ v ∈ valuesNamed keys ms, ¬isAbsent v ∧ ∀ x, codec.read memberLevels v ≠ .ok x

/-- A value is null. -/
def IsNull (v : Node) : Prop := v = .null

/-- A value stands for null: it is null, or wraps a text that spells what stands for null. -/
def StandsForNull (v : Node) : Prop := v.StandsFor memberLevels .null

/-- Members that give one of the fields of a frame no value. -/
def IsSpoilt (ms : List (Entry Node)) : Prop :=
  Spoils ms ["success"] IsNull .flag ∨ Spoils ms ["ret_msg"] IsNull .text ∨
    Spoils ms ["req_id"] IsNull .text ∨ Spoils ms ["conn_id"] IsNull .text ∨
    Spoils ms ["op"] IsNull Operation.codec ∨ Spoils ms ["args"] IsNull (.list .text) ∨
    Spoils ms ["topic"] IsNull .text ∨ Spoils ms ["type"] IsNull PushKind.codec ∨
    Spoils ms ["ts", "creationTime"] StandsForNull .word ∨ Spoils ms ["data"] IsNull .captured

/-- The fields that members give a frame. -/
structure Describes (ms : List (Entry Node)) (f : FrameFields) : Prop where
  success : Says ms ["success"] IsNull .flag f.success
  retMsg : Says ms ["ret_msg"] IsNull .text f.retMsg
  reqId : Says ms ["req_id"] IsNull .text f.reqId
  connId : Says ms ["conn_id"] IsNull .text f.connId
  op : Says ms ["op"] IsNull Operation.codec f.op
  args : Says ms ["args"] IsNull (.list .text) f.args
  topic : Says ms ["topic"] IsNull .text f.topic
  kind : Says ms ["type"] IsNull PushKind.codec f.kind
  timestamp : Says ms ["ts", "creationTime"] StandsForNull .word f.timestamp
  data : Says ms ["data"] IsNull .captured f.data

/-- A field of an acknowledgement is there. -/
def HasOperation (f : FrameFields) : Prop :=
  f.success ≠ none ∨ f.retMsg ≠ none ∨ f.reqId ≠ none ∨ f.connId ≠ none ∨ f.op ≠ none ∨
    f.args ≠ none

/-- A field of a push is there. -/
def HasTopic (f : FrameFields) : Prop :=
  f.topic ≠ none ∨ f.kind ≠ none ∨ f.timestamp ≠ none ∨ f.data ≠ none

/-- The part of a topic before its first point is that of the topics of an account. -/
def IsPrivate (topic : String) : Prop :=
  topic.toList.takeWhile (· ≠ '.') = ['o', 'r', 'd', 'e', 'r'] ∨
    topic.toList.takeWhile (· ≠ '.') = ['w', 'a', 'l', 'l', 'e', 't']

/-- What a frame with the given fields is. -/
structure Classified (raw : List UInt8) (f : FrameFields) : Prop where
  acknowledgement : ∀ a, decode raw = .ok (.acknowledgement a) ↔
    HasOperation f ∧ ¬HasTopic f ∧ a = {
      op := f.op.getD (.unknown ""), success := f.success.getD false, retMsg := f.retMsg.getD "",
      connId := f.connId.getD "", reqId := f.reqId, args := f.args.getD [] }
  push : ∀ p, decode raw = .ok (.push p) ↔
    ¬HasOperation f ∧ f.topic = some p.topic ∧ f.data = some p.payload ∧
      f.timestamp = some p.timestamp ∧
      (f.kind = some p.kind ∨ f.kind = none ∧ IsPrivate p.topic ∧ p.kind = .snapshot)
  malformed : ∀ e, decode raw = .error e → ∃ cause, e = .malformed cause (textOf raw)

/-! ### Fields -/

theorem says_unique {α : Type} {ms : List (Entry Node)} {keys : List String}
    {isAbsent : Node → Prop} {codec : Codec α} {x y : Option α} (hx : Says ms keys isAbsent codec x)
    (hy : Says ms keys isAbsent codec y) : x = y := by
  -- Nothing is said where something is: the one value would be absent and not.
  have hnone : ∀ {z : α}, Says ms keys isAbsent codec none →
      ¬Says ms keys isAbsent codec (some z) := by
    rintro z (hnil | ⟨w, hw, habsent⟩) ⟨v, hv, hnot, _⟩
    · rw [hv] at hnil
      cases hnil
    · rw [hv] at hw
      exact hnot ((List.cons.inj hw).1 ▸ habsent)
  cases x with
  | none =>
    cases y with
    | none => rfl
    | some y => exact absurd hy (hnone hx)
  | some x =>
    cases y with
    | none => exact absurd hx (hnone hy)
    | some y =>
      obtain ⟨v, hv, _, hread⟩ := hx
      obtain ⟨w, hw, _, hread'⟩ := hy
      rw [hv] at hw
      obtain rfl := (List.cons.inj hw).1
      rw [hread] at hread'
      exact congrArg some (Except.ok.inj hread')

theorem describes_unique {ms : List (Entry Node)} {f g : FrameFields} (hf : Describes ms f)
    (hg : Describes ms g) : f = g := by
  obtain ⟨f₁, f₂, f₃, f₄, f₅, f₆, f₇, f₈, f₉, f₁₀⟩ := f
  obtain ⟨g₁, g₂, g₃, g₄, g₅, g₆, g₇, g₈, g₉, g₁₀⟩ := g
  obtain rfl : f₁ = g₁ := says_unique hf.success hg.success
  obtain rfl : f₂ = g₂ := says_unique hf.retMsg hg.retMsg
  obtain rfl : f₃ = g₃ := says_unique hf.reqId hg.reqId
  obtain rfl : f₄ = g₄ := says_unique hf.connId hg.connId
  obtain rfl : f₅ = g₅ := says_unique hf.op hg.op
  obtain rfl : f₆ = g₆ := says_unique hf.args hg.args
  obtain rfl : f₇ = g₇ := says_unique hf.topic hg.topic
  obtain rfl : f₈ = g₈ := says_unique hf.kind hg.kind
  obtain rfl : f₉ = g₉ := says_unique hf.timestamp hg.timestamp
  obtain rfl : f₁₀ = g₁₀ := says_unique hf.data hg.data
  rfl

/-- Members give a field a value unless they spoil it. -/
theorem exists_says {α : Type} {ms : List (Entry Node)} {keys : List String}
    {isAbsent : Node → Prop} {codec : Codec α} (h : ¬Spoils ms keys isAbsent codec) :
    ∃ x, Says ms keys isAbsent codec x := by
  rw [Spoils, not_or] at h
  obtain ⟨hlen, hread⟩ := h
  match hvalues : valuesNamed keys ms with
  | [] => exact ⟨none, Or.inl hvalues⟩
  | v :: w :: vs =>
    rw [hvalues] at hlen
    exact absurd (by simp) hlen
  | [v] =>
    by_cases habsent : isAbsent v
    · exact ⟨none, Or.inr ⟨v, hvalues, habsent⟩⟩
    · cases hv : codec.read memberLevels v with
      | ok x => exact ⟨some x, v, hvalues, habsent, hv⟩
      | error fault =>
        refine absurd ⟨v, ?_, habsent, fun x hx => ?_⟩ hread
        · rw [hvalues]
          exact List.mem_cons_self
        · rw [hv] at hx
          cases hx

theorem not_says_of_spoils {α : Type} {ms : List (Entry Node)} {keys : List String}
    {isAbsent : Node → Prop} {codec : Codec α} (h : Spoils ms keys isAbsent codec) (x : Option α) :
    ¬Says ms keys isAbsent codec x := by
  intro hx
  have hone : valuesNamed keys ms = [] ∨ ∃ v, valuesNamed keys ms = [v] ∧
      (isAbsent v ∨ ∃ y, codec.read memberLevels v = .ok y) := by
    cases x with
    | none =>
      obtain hnil | ⟨v, hv, habsent⟩ := hx
      · exact Or.inl hnil
      · exact Or.inr ⟨v, hv, Or.inl habsent⟩
    | some x =>
      obtain ⟨v, hv, _, hread⟩ := hx
      exact Or.inr ⟨v, hv, Or.inr ⟨x, hread⟩⟩
  obtain hlen | ⟨w, hw, habsent, hread⟩ := h
  · obtain hnil | ⟨v, hv, _⟩ := hone
    · rw [hnil] at hlen
      exact absurd hlen (by decide)
    · rw [hv] at hlen
      exact absurd hlen (by simp)
  · obtain hnil | ⟨v, hv, hvalue⟩ := hone
    · rw [hnil] at hw
      cases hw
    · rw [hv, List.mem_singleton] at hw
      subst hw
      obtain hnull | ⟨y, hy⟩ := hvalue
      · exact habsent hnull
      · exact hread y hy

theorem exists_describes {ms : List (Entry Node)} (h : ¬IsSpoilt ms) : ∃ f, Describes ms f := by
  simp only [IsSpoilt, not_or] at h
  obtain ⟨h₁, h₂, h₃, h₄, h₅, h₆, h₇, h₈, h₉, h₁₀⟩ := h
  obtain ⟨success, h₁⟩ := exists_says h₁
  obtain ⟨retMsg, h₂⟩ := exists_says h₂
  obtain ⟨reqId, h₃⟩ := exists_says h₃
  obtain ⟨connId, h₄⟩ := exists_says h₄
  obtain ⟨op, h₅⟩ := exists_says h₅
  obtain ⟨args, h₆⟩ := exists_says h₆
  obtain ⟨topic, h₇⟩ := exists_says h₇
  obtain ⟨kind, h₈⟩ := exists_says h₈
  obtain ⟨timestamp, h₉⟩ := exists_says h₉
  obtain ⟨data, h₁₀⟩ := exists_says h₁₀
  exact ⟨⟨success, retMsg, reqId, connId, op, args, topic, kind, timestamp, data⟩,
    h₁, h₂, h₃, h₄, h₅, h₆, h₇, h₈, h₉, h₁₀⟩

theorem not_describes {ms : List (Entry Node)} (h : IsSpoilt ms) (f : FrameFields) :
    ¬Describes ms f := by
  intro hf
  obtain h | h | h | h | h | h | h | h | h | h := h
  · exact not_says_of_spoils h _ hf.success
  · exact not_says_of_spoils h _ hf.retMsg
  · exact not_says_of_spoils h _ hf.reqId
  · exact not_says_of_spoils h _ hf.connId
  · exact not_says_of_spoils h _ hf.op
  · exact not_says_of_spoils h _ hf.args
  · exact not_says_of_spoils h _ hf.topic
  · exact not_says_of_spoils h _ hf.kind
  · exact not_says_of_spoils h _ hf.timestamp
  · exact not_says_of_spoils h _ hf.data

/-! ### Reading the fields -/

/-- A field that may be absent holds what the members say of it. -/
theorem holds_optional_iff {α : Type} {ms : List (Entry Node)} {label key : String}
    {codec : Codec α} {absence : Absence (Option α)} {other : Option String}
    {omitted : Option α → Bool} (habsent : absence.object? = some none) {isAbsent : Node → Prop}
    (hnull : ∀ v, codec.isNull memberLevels v = true ↔ isAbsent v) {keys : List String}
    {x : Option α} :
    (@Json.Field.mk (Option α) label key codec.optional absence other omitted).Holds memberLevels
        (valuesNamed keys ms) x ↔ Says ms keys isAbsent codec x := by
  cases x with
  | none =>
    refine (FrameFields.holds_none_iff habsent).trans (or_congr_right (exists_congr fun v => ?_))
    exact and_congr_right fun _ => hnull v
  | some x =>
    refine (FrameFields.holds_some_iff habsent).trans (exists_congr fun v => ?_)
    rw [← Bool.not_eq_true, hnull v]

theorem hold_iff_describes {ms : List (Entry Node)} {ending : Ending}
    {xs : Values FrameFields.record.fields} :
    Values.Hold memberLevels (.object ms ending) FrameFields.record.fields 0 xs ↔
      Describes ms (FrameFields.record.ofValues xs) := by
  obtain ⟨success, retMsg, reqId, connId, op, args, topic, kind, timestamp, data, ⟨⟩⟩ := xs
  have hnull : ∀ v : Node, v.isNull = true ↔ IsNull v := fun _ => isNull_iff
  have hword : ∀ v, Codec.word.isNull memberLevels v = true ↔ StandsForNull v :=
    fun _ => Codec.word_isNull_iff.trans Value.ofNode_eq_null_iff
  constructor
  · rintro ⟨h₁, h₂, h₃, h₄, h₅, h₆, h₇, h₈, h₉, h₁₀, _⟩
    exact ⟨(holds_optional_iff rfl hnull).1 h₁, (holds_optional_iff rfl hnull).1 h₂,
      (holds_optional_iff rfl hnull).1 h₃, (holds_optional_iff rfl hnull).1 h₄,
      (holds_optional_iff rfl hnull).1 h₅, (holds_optional_iff rfl hnull).1 h₆,
      (holds_optional_iff rfl hnull).1 h₇, (holds_optional_iff rfl hnull).1 h₈,
      (holds_optional_iff rfl hword).1 h₉, (holds_optional_iff rfl hnull).1 h₁₀⟩
  · rintro ⟨h₁, h₂, h₃, h₄, h₅, h₆, h₇, h₈, h₉, h₁₀⟩
    exact ⟨(holds_optional_iff rfl hnull).2 h₁, (holds_optional_iff rfl hnull).2 h₂,
      (holds_optional_iff rfl hnull).2 h₃, (holds_optional_iff rfl hnull).2 h₄,
      (holds_optional_iff rfl hnull).2 h₅, (holds_optional_iff rfl hnull).2 h₆,
      (holds_optional_iff rfl hnull).2 h₇, (holds_optional_iff rfl hnull).2 h₈,
      (holds_optional_iff rfl hword).2 h₉, (holds_optional_iff rfl hnull).2 h₁₀, trivial⟩

/-- The fields of a frame are decoded exactly if the members of no field are passed over, and as the
members describe them. -/
theorem decode_fields_object_iff {raw : List UInt8} {ms : List (Entry Node)} {ending : Ending}
    (hraw : Spells raw (.object ms ending)) {f : FrameFields} :
    Json.decode FrameFields.record.codec raw = .ok f ↔
      (∀ m ∈ ms, m.isNamed (FrameFields.record.fields.flatMap Field.keys) = true ∨
        m.isIgnorable = true) ∧ Describes ms f := by
  rw [Record.decode_object_iff FrameFields.nodup_keys hraw]
  apply and_congr_right
  intro _
  constructor
  · rintro ⟨xs, hxs, rfl⟩
    exact hold_iff_describes.1 hxs
  · intro h
    exact ⟨FrameFields.record.toValues f, hold_iff_describes.2 h, rfl⟩

/-- The fields of a frame are decoded exactly as its members describe them. -/
theorem decode_fields_iff {raw : List UInt8} {ms : List (Entry Node)} {ending : Ending}
    (hraw : Spells raw (.object ms ending))
    (hkeys : ∀ m ∈ ms, (StringPart.decode? m.key).isSome = true) {f : FrameFields} :
    Json.decode FrameFields.record.codec raw = .ok f ↔ Describes ms f := by
  have hms := ((isGrammatical_object ms ending).1 (isGrammatical_of_spells hraw)).1
  have hmembers : ∀ m ∈ ms, m.isNamed (FrameFields.record.fields.flatMap Field.keys) = true ∨
      m.isIgnorable = true := by
    intro m hm
    have hsound := (Bool.and_eq_true_iff.1 (hms m hm).value).2
    exact Or.inr (Bool.and_eq_true_iff.2 ⟨hkeys m hm, hsound⟩)
  rw [decode_fields_object_iff hraw]
  exact and_iff_right hmembers

/-! ### What the fields make up -/

theorem isOperational_iff (f : FrameFields) : f.isOperational = true ↔ HasOperation f := by
  simp only [FrameFields.isOperational, HasOperation, Bool.or_eq_true, Option.isSome_iff_ne_none,
    or_assoc]

theorem isTopical_iff (f : FrameFields) : f.isTopical = true ↔ HasTopic f := by
  simp only [FrameFields.isTopical, HasTopic, Bool.or_eq_true, Option.isSome_iff_ne_none, or_assoc]

theorem isPrivate_iff (topic : String) :
    IsPrivate topic ↔ Topic.type topic = .order ∨ Topic.type topic = .wallet := by
  have horder : ∀ cs : List Char, cs = ['o', 'r', 'd', 'e', 'r'] ↔ String.ofList cs = "order" :=
    fun cs => String.ofList_inj.symm
  have hwallet : ∀ cs : List Char,
      cs = ['w', 'a', 'l', 'l', 'e', 't'] ↔ String.ofList cs = "wallet" :=
    fun cs => String.ofList_inj.symm
  rw [IsPrivate, Topic.type_eq, Topic.ofText_eq_order_iff, Topic.ofText_eq_wallet_iff, horder,
    hwallet]
  rfl

/-- A push is of the kind that is said, or a snapshot where nothing is said on a topic of an
account. -/
theorem pushKind?_eq_some_iff {topic : String} {said : Option PushKind} {kind : PushKind} :
    FrameFields.pushKind? topic said = some kind ↔
      said = some kind ∨ said = none ∧ IsPrivate topic ∧ kind = .snapshot := by
  rw [FrameFields.pushKind?, isPrivate_iff]
  cases said with
  | some k => simp
  | none =>
    cases htype : Topic.type topic <;> simp [eq_comm]

theorem ofFields_acknowledgement_iff {f : FrameFields} {a : Acknowledgement} :
    ofFields f = .ok (.acknowledgement a) ↔
      HasOperation f ∧ ¬HasTopic f ∧ a = f.acknowledgement := by
  rw [ofFields_eq_acknowledgement_iff, ← isOperational_iff, ← isTopical_iff, Bool.not_eq_true]

theorem ofFields_push_iff {f : FrameFields} {p : Push} :
    ofFields f = .ok (.push p) ↔ ¬HasOperation f ∧ f.push = .ok p := by
  rw [ofFields_eq_push_iff, ← isOperational_iff, Bool.not_eq_true]

theorem malformed_of_decode {raw : List UInt8} {e : FeedError} (h : decode raw = .error e) :
    ∃ cause, e = .malformed cause (textOf raw) := by
  obtain ⟨cause, _, rfl⟩ := Outcome.mapError_eq_error_iff.1 h
  exact ⟨cause, rfl⟩

theorem classified_of_decode {raw : List UInt8} {f : FrameFields}
    (h : Json.decode FrameFields.record.codec raw = .ok f) : Classified raw f := by
  have hdecode : ∀ e, decode raw = .ok e ↔ ofFields f = .ok e := by
    intro e
    rw [decode_eq_ok_iff]
    constructor
    · rintro ⟨g, hg, he⟩
      rw [h] at hg
      obtain rfl := Except.ok.inj hg
      exact he
    · exact fun he => ⟨f, h, he⟩
  refine ⟨fun a => ?_, fun p => ?_, fun e he => malformed_of_decode he⟩
  · rw [hdecode, ofFields_acknowledgement_iff]
    rfl
  · rw [hdecode, ofFields_push_iff, FrameFields.push_eq_ok_iff, pushKind?_eq_some_iff]

/-- What a frame is follows from its members, in whatever order and among whatever others: it is
malformed if they spoil a field, and otherwise what the fields that they describe make it. -/
theorem decode_classifies {raw : List UInt8} {ms : List (Entry Node)} {ending : Ending}
    (hraw : Spells raw (.object ms ending))
    (hkeys : ∀ m ∈ ms, (StringPart.decode? m.key).isSome = true) :
    (IsSpoilt ms → ∃ fault, decode raw = .error (.malformed (.json fault) (textOf raw))) ∧
      (¬IsSpoilt ms → ∃ f, (∀ g, Describes ms g ↔ g = f) ∧ Classified raw f) := by
  constructor
  · intro h
    cases hfields : Json.decode FrameFields.record.codec raw with
    | ok f => exact absurd ((decode_fields_iff hraw hkeys).1 hfields) (not_describes h f)
    | error fault =>
      refine ⟨fault, ?_⟩
      rw [decode, read, hfields]
      rfl
  · intro h
    obtain ⟨f, hf⟩ := exists_describes h
    refine ⟨f, fun g => ⟨fun hg => describes_unique hg hf, fun hg => hg ▸ hf⟩, ?_⟩
    exact classified_of_decode ((decode_fields_iff hraw hkeys).2 hf)

/-- A subscription that has succeeded, with a member that no field has. -/
theorem decode_classifies_subscription :
    ∃ f, (∀ g, Describes [member "op" (ofString "subscribe"), member "success" (.bool true),
        member "unlisted" (ofList [.null])] g ↔ g = f) ∧
      Classified (ofMembers [member "op" (ofString "subscribe"), member "success" (.bool true),
        member "unlisted" (ofList [.null])]).text f := by
  refine (decode_classifies (spells_text (by decide)) (by decide)).2 fun h => ?_
  refine not_describes h ⟨some true, none, none, none, some .subscribe, none, none, none, none,
    none⟩ ?_
  exact ⟨⟨_, rfl, nofun, rfl⟩, Or.inl rfl, Or.inl rfl, Or.inl rfl, ⟨_, rfl, nofun, rfl⟩,
    Or.inl rfl, Or.inl rfl, Or.inl rfl, Or.inl rfl, Or.inl rfl⟩

/-- Frames with a time that is neither null nor an integer in any spelling: the one is an
acknowledgement without a time, the other the push of a book with one. -/
theorem decode_takes_wrapped_time :
    (wrap "null" ≠ .null ∧ (∀ n, ¬(wrap "null").DenotesNat n) ∧
      decode (ofMembers [member "op" (ofString "ping"), member "ts" (wrap "null")]).text =
        .ok (.acknowledgement {
          op := .ping, success := false, retMsg := "", connId := "", reqId := none, args := [] })) ∧
    (wrap "5" ≠ .null ∧ (∀ n, ¬(wrap "5").DenotesNat n) ∧
      decode (ofMembers [member "topic" (ofString "wallet"), member "ts" (wrap "5"),
        member "data" (ofList [])]).text = .ok (.push ⟨"wallet", .snapshot, 5, "[]"⟩)) := by
  refine ⟨⟨nofun, fun _ h => h, ?_⟩, nofun, fun _ h => h, ?_⟩
  · decide +kernel
  · decide +kernel

end Envelope

end MarketFeed
