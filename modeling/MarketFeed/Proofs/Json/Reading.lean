import MarketFeed.Json.Record
import MarketFeed.Proofs.Json.Kept
import MarketFeed.Proofs.Json.Scanning
import MarketFeed.Proofs.Json.Spelling
import MarketFeed.Proofs.Outcome

/-!
# What is decoded

`Spells raw t` says that octets are the text of a tree between blanks; a text spells one tree at
most.  A codec that reads broken trees of no kind (`Codec.ReadsSound`) decodes such texts only, and
reads the tree that is spelled (`decode_eq_ok_iff`).
-/

namespace MarketFeed

namespace Json

open Node

/-- The octets are a tree of the grammar between blanks. -/
def Spells (raw : List UInt8) (t : Node) : Prop :=
  ∃ before after : Gap, before.isBlank = true ∧ after.isBlank = true ∧
    t.isGrammatical = true ∧ raw = before ++ t.text ++ after

theorem isGrammatical_of_spells {raw : List UInt8} {t : Node} (h : Spells raw t) :
    t.isGrammatical = true := by
  obtain ⟨_, _, _, _, ht, _⟩ := h
  exact ht

theorem stops_blank {gap : Gap} (h : gap.isBlank = true) : Numeral.stops gap = true := by
  have hstop := stops_gap h (s := []) rfl
  rwa [List.append_nil] at hstop

/-- The tree that is spelled is scanned. -/
theorem scan_of_spells {raw : List UInt8} {t : Node} (h : Spells raw t) :
    ∃ after : Gap, after.isBlank = true ∧ scan (dropGap raw) = (t, after) := by
  obtain ⟨before, after, hb, ha, ht, rfl⟩ := h
  refine ⟨after, ha, ?_⟩
  rw [List.append_assoc, dropGap_append hb (startsBare_text ht after),
    scan_text ht (stops_blank ha)]

/-- Octets spell one tree at most. -/
theorem spells_unique {raw : List UInt8} {t t' : Node} (h : Spells raw t) (h' : Spells raw t') :
    t = t' := by
  obtain ⟨after, _, hscan⟩ := scan_of_spells h
  obtain ⟨after', _, hscan'⟩ := scan_of_spells h'
  rw [hscan] at hscan'
  exact (Prod.mk.inj hscan').1

theorem spells_of_scan {raw after : List UInt8} {t : Node} (h : scan (dropGap raw) = (t, after))
    (hsound : t.isSound = true) (hafter : after.all Octet.isBlank = true) : Spells raw t := by
  obtain ⟨hspelled, htext⟩ := spelled_of_scan h
  refine ⟨takeGap raw, after, takeGap_isBlank raw, hafter,
    Bool.and_eq_true_iff.2 ⟨hspelled, hsound⟩, ?_⟩
  rw [List.append_assoc, htext, takeGap_append_dropGap]

theorem spells_text {t : Node} (h : t.isGrammatical = true) : Spells t.text t :=
  ⟨[], [], rfl, rfl, h, (List.append_nil _).symm⟩

/-- What is decoded is what is read of the tree that is spelled. -/
theorem decodeWith_of_spells {α : Type} (read : Node → Except Fault α) {raw : List UInt8} {t : Node}
    (h : Spells raw t) : decodeWith read raw = read t := by
  obtain ⟨after, hafter, hscan⟩ := scan_of_spells h
  have hall : after.all Octet.isBlank = true := hafter
  rw [decodeWith, hscan]
  dsimp only
  rw [hall]
  cases read t <;> rfl

/-- What decodes spells a tree that is read, if no tree with a break is. -/
theorem decodeWith_eq_ok_iff {α : Type} {read : Node → Except Fault α}
    (hread : ∀ t x, t.isSpelled = true → read t = .ok x → t.isSound = true) {raw : List UInt8}
    {x : α} : decodeWith read raw = .ok x ↔ ∃ t, Spells raw t ∧ read t = .ok x := by
  constructor
  · intro h
    rcases hscan : scan (dropGap raw) with ⟨t, after⟩
    rw [decodeWith, hscan] at h
    dsimp only at h
    cases ht : read t with
    | error fault =>
      rw [ht] at h
      cases h
    | ok y =>
      rw [ht] at h
      dsimp only at h
      have hafter : after.all Octet.isBlank = true := by
        by_contra hne
        rw [if_neg hne] at h
        cases h
      rw [if_pos hafter] at h
      cases h
      have hsound := hread t x (spelled_of_scan hscan).1 ht
      exact ⟨t, spells_of_scan hscan hsound hafter, ht⟩
  · rintro ⟨t, hspells, ht⟩
    rw [decodeWith_of_spells read hspells, ht]

/-- What is decoded is what the codec reads of the tree that is spelled. -/
theorem decode_of_spells {α : Type} (codec : Codec α) {raw : List UInt8} {t : Node}
    (h : Spells raw t) : decode codec raw = codec.read allLevels t :=
  decodeWith_of_spells _ h

/-- Every tree that the codec reads is without a break, if it is spelled. -/
def Codec.ReadsSound {α : Type} (codec : Codec α) : Prop :=
  ∀ levels t x, t.isSpelled = true → codec.read levels t = .ok x → t.isSound = true

/-- What decodes spells a tree that the codec reads. -/
theorem decode_eq_ok_iff {α : Type} {codec : Codec α} (hc : codec.ReadsSound) {raw : List UInt8}
    {x : α} :
    decode codec raw = .ok x ↔ ∃ t, Spells raw t ∧ codec.read allLevels t = .ok x :=
  decodeWith_eq_ok_iff (hc allLevels)

/-! ### Codecs that read sound trees only -/

theorem Ending.check_eq_ok_iff {ending : Ending} {u : Unit} :
    ending.check = .ok u ↔ ending.isClosed = true := by
  cases ending <;> simp [Ending.check, Ending.isClosed]

theorem isSound_of_all_elements {es : List (Spaced Node)} {ending : Ending}
    (hes : ∀ e ∈ es, e.value.isSound = true) (hending : ending.isClosed = true) :
    (array es ending).isSound = true := by
  rw [isSound, elementsSound_eq, hending, Bool.and_true, List.all_eq_true]
  intro e he
  rw [elementSound_eq]
  exact hes e he

theorem isSound_of_all_members {ms : List (Entry Node)} {ending : Ending}
    (hms : ∀ m ∈ ms, m.colon.isSome = true ∧ m.value.isSound = true)
    (hending : ending.isClosed = true) : (object ms ending).isSound = true := by
  rw [isSound, membersSound_eq, hending, Bool.and_true, List.all_eq_true]
  intro m hm
  rw [memberSound_eq]
  exact Bool.and_eq_true_iff.2 (hms m hm)

theorem isSpelled_element {es : List (Spaced Node)} {ending : Ending}
    (h : (array es ending).isSpelled = true) {e : Spaced Node} (he : e ∈ es) :
    e.value.isSpelled = true := by
  rw [isSpelled, elementsSpelled_eq, Bool.and_eq_true, List.all_eq_true] at h
  have hspelled := h.1 e he
  obtain ⟨before, value, after⟩ := e
  rw [elementSpelled, Bool.and_eq_true, Bool.and_eq_true] at hspelled
  exact hspelled.1.2

/-- A member that is spelled has a colon if its value is sound. -/
theorem isSpelled_member {ms : List (Entry Node)} {ending : Ending}
    (h : (object ms ending).isSpelled = true) {m : Entry Node} (hm : m ∈ ms) :
    m.value.isSpelled = true ∧ (m.value.isSound = true → m.colon.isSome = true) := by
  rw [isSpelled, membersSpelled_eq, Bool.and_eq_true, List.all_eq_true] at h
  have hspelled := h.1 m hm
  obtain ⟨before, key, colon, value, after⟩ := m
  simp only [memberSpelled, Bool.and_eq_true] at hspelled
  obtain ⟨⟨⟨_, hcolon⟩, hvalue⟩, _⟩ := hspelled
  refine ⟨hvalue, fun hsound => ?_⟩
  cases colon with
  | none => simp [hsound] at hcolon
  | some gaps => rfl

namespace Codec

theorem readsSound_flag : flag.ReadsSound := by
  intro levels t b _ h
  cases t with
  | bool b => rfl
  | _ => cases h

theorem readText_eq_ok_iff {expected s : String} {t : Node} :
    readText expected t = .ok s ↔ ∃ body, t = .string body ∧ StringPart.decode? body = some s := by
  constructor
  · intro h
    cases t with
    | string body =>
      refine ⟨body, rfl, ?_⟩
      rw [readText] at h
      split at h
      · next s' hs => rw [hs, Except.ok.inj h]
      · cases h
    | _ => cases h
  · rintro ⟨body, rfl, hs⟩
    rw [readText, hs]

theorem isSound_of_readText {expected s : String} {t : Node}
    (h : readText expected t = .ok s) : t.isSound = true := by
  obtain ⟨body, rfl, _⟩ := readText_eq_ok_iff.1 h
  rfl

theorem readsSound_text : text.ReadsSound := fun _ _ _ _ h => isSound_of_readText h

theorem readsSound_named {α : Type} [BEq α] (ofText : String → α) (toText inspect : α → String) :
    (named ofText toText inspect).ReadsSound := by
  intro levels t x _ h
  obtain ⟨s, hs, _⟩ := Outcome.map_eq_ok_iff.1 h
  exact isSound_of_readText hs

theorem readsSound_decimal : decimal.ReadsSound := by
  intro levels t d _ h
  obtain ⟨s, hs, _⟩ := Outcome.bind_eq_ok_iff.1 h
  exact isSound_of_readText hs

theorem readsSound_captured : captured.ReadsSound := by
  intro levels t s _ h
  by_contra hsound
  rw [Bool.not_eq_true] at hsound
  simp [captured, hsound] at h

/-- A tree that stands for a value has no break. -/
theorem isSound_of_value {levels : Nat} {t : Node} {v : Value}
    (h : Value.ofNode levels t = .ok v) : t.isSound = true :=
  Buffered.isSound_of_isWhole (Buffered.isWhole_of_readWith h)

theorem readsSound_word : word.ReadsSound := by
  intro levels t n _ h
  obtain ⟨v, hv, _⟩ := Outcome.bind_eq_ok_iff.1 h
  exact isSound_of_value hv

theorem word_isNull_iff {levels : Nat} {t : Node} :
    word.isNull levels t = true ↔ Value.ofNode levels t = .ok .null := by
  unfold word
  dsimp only
  split
  · next h => exact iff_of_true rfl h
  · next h => exact iff_of_false Bool.false_ne_true h

theorem readsSound_looseDecimal : looseDecimal.ReadsSound := by
  intro levels t d _ h
  obtain ⟨v, hv, _⟩ := Outcome.bind_eq_ok_iff.1 h
  exact isSound_of_value hv

/-! ### Compositions that read sound trees only -/

theorem readsSound_list {α : Type} {codec : Codec α} (hc : codec.ReadsSound) :
    (list codec).ReadsSound := by
  intro levels t xs ht h
  cases t with
  | array es ending =>
    cases levels with
    | zero => cases h
    | succ levels =>
      obtain ⟨values, hvalues, h⟩ := Outcome.bind_eq_ok_iff.1 h
      obtain ⟨u, hending, _⟩ := Outcome.bind_eq_ok_iff.1 h
      refine isSound_of_all_elements ?_ (Ending.check_eq_ok_iff.1 hending)
      intro e he
      obtain ⟨x, _, hx⟩ := Outcome.exists_of_forall₂ (Outcome.mapM_eq_ok_iff.1 hvalues) he
      exact hc levels e.value x (isSpelled_element ht he) hx
  | _ => cases h

theorem optional_read_of_not_isNull {α : Type} {codec : Codec α} {levels : Nat} {t : Node}
    (h : codec.isNull levels t = false) :
    codec.optional.read levels t = (codec.read levels t).map some := by
  change (if codec.isNull levels t = true then _ else _) = _
  rw [h]
  rfl

theorem optional_read_eq_none_iff {α : Type} {codec : Codec α} {levels : Nat} {t : Node} :
    codec.optional.read levels t = .ok none ↔ codec.isNull levels t = true := by
  cases hnull : codec.isNull levels t with
  | true => exact iff_of_true (if_pos hnull) rfl
  | false => simp [optional_read_of_not_isNull hnull, Outcome.map_eq_ok_iff]

theorem optional_read_eq_some_iff {α : Type} {codec : Codec α} {levels : Nat} {t : Node} {x : α} :
    codec.optional.read levels t = .ok (some x) ↔
      codec.isNull levels t = false ∧ codec.read levels t = .ok x := by
  cases hnull : codec.isNull levels t with
  | true =>
    rw [show codec.optional.read levels t = .ok none from if_pos hnull]
    simp
  | false => simp [optional_read_of_not_isNull hnull, Outcome.map_eq_ok_iff]

theorem readsSound_optional {α : Type} {codec : Codec α}
    (hnull : ∀ levels t, codec.isNull levels t = true → t.isSound = true) (hc : codec.ReadsSound) :
    codec.optional.ReadsSound := by
  intro levels t x ht h
  cases x with
  | none => exact hnull levels t (optional_read_eq_none_iff.1 h)
  | some y => exact hc levels t y ht (optional_read_eq_some_iff.1 h).2

theorem eq_null_of_readUnit {t : Node} {u : Unit} (h : readUnit t = .ok u) : t = .null := by
  cases t with
  | null => rfl
  | _ => cases h

theorem readsSound_choice {α : Type} [BEq α] (table : List (String × α))
    (toText inspect : α → String) : (choice table toText inspect).ReadsSound := by
  intro levels t x ht h
  change readChoice table levels t = .ok x at h
  rw [readChoice.eq_def] at h
  split at h
  · rfl
  · cases h
  · next m ms ending =>
    obtain ⟨name, _, h⟩ := Outcome.bind_eq_ok_iff.1 h
    obtain ⟨value, _, h⟩ := Outcome.bind_eq_ok_iff.1 h
    obtain ⟨u, hunit, h⟩ := Outcome.bind_eq_ok_iff.1 h
    obtain ⟨u', hending, h⟩ := Outcome.bind_eq_ok_iff.1 h
    split at h
    · next hms =>
      obtain rfl := List.isEmpty_iff.1 hms
      have hsound : m.value.isSound = true := by
        rw [eq_null_of_readUnit hunit]
        rfl
      have hcolon := (isSpelled_member ht List.mem_cons_self).2 hsound
      refine isSound_of_all_members ?_ (Ending.check_eq_ok_iff.1 hending)
      exact List.forall_mem_singleton.2 ⟨hcolon, hsound⟩
    · cases h
  · cases h

end Codec

/-! ### Records that read sound trees only -/

theorem sound_of_ofElements {levels : Nat} {tooShort : Nat → Fault} {ending : Ending}
    {fields : List Field} (hf : ∀ f ∈ fields, f.codec.ReadsSound) {position : Nat}
    {es : List (Spaced Node)} (hes : ∀ e ∈ es, e.value.isSpelled = true) {values : Values fields}
    (h : Values.ofElements levels tooShort ending fields position es = .ok values) :
    (∀ e ∈ es, e.value.isSound = true) ∧ ending.isClosed = true := by
  induction fields generalizing position es with
  | nil =>
    cases es with
    | nil =>
      obtain ⟨u, hu, _⟩ := Outcome.map_eq_ok_iff.1 h
      exact ⟨List.forall_mem_nil _, Ending.check_eq_ok_iff.1 hu⟩
    | cons e es => cases h
  | cons f fields ih =>
    cases es with
    | nil =>
      obtain ⟨u, hu, _⟩ := Outcome.bind_eq_ok_iff.1 h
      exact ⟨List.forall_mem_nil _, Ending.check_eq_ok_iff.1 hu⟩
    | cons e es =>
      obtain ⟨value, hvalue, h⟩ := Outcome.bind_eq_ok_iff.1 h
      obtain ⟨values', hvalues, _⟩ := Outcome.bind_eq_ok_iff.1 h
      obtain ⟨hfield, hfields⟩ := List.forall_mem_cons.1 hf
      obtain ⟨he, hes⟩ := List.forall_mem_cons.1 hes
      obtain ⟨htail, hclosed⟩ := ih hfields hes hvalues
      exact ⟨List.forall_mem_cons.2 ⟨hfield levels e.value value he hvalue, htail⟩, hclosed⟩

theorem sound_of_put {levels : Nat} {key : String} {value : Node} (hvalue : value.isSpelled = true)
    {fields : List Field} (hf : ∀ f ∈ fields, f.codec.ReadsSound) {slots slots' : Slots fields}
    (h : Slots.put levels key value fields slots = .ok slots') : value.isSound = true := by
  induction fields with
  | nil =>
    change (if value.isSound then Except.ok () else .error Fault.grammar) = _ at h
    split at h
    · assumption
    · cases h
  | cons f fields ih =>
    obtain ⟨slot, slots⟩ := slots
    obtain ⟨hfield, hfields⟩ := List.forall_mem_cons.1 hf
    rw [Slots.put] at h
    split at h
    · split at h
      · cases h
      · obtain ⟨x, hx, _⟩ := Outcome.map_eq_ok_iff.1 h
        exact hfield levels value x hvalue hx
    · obtain ⟨slots₁, hslots, _⟩ := Outcome.map_eq_ok_iff.1 h
      exact ih hfields hslots

theorem sound_of_putAll {levels : Nat} {fields : List Field}
    (hf : ∀ f ∈ fields, f.codec.ReadsSound) {ms : List (Entry Node)}
    (hms : ∀ m ∈ ms, m.value.isSpelled = true) {slots slots' : Slots fields}
    (h : slots.putAll levels fields ms = .ok slots') : ∀ m ∈ ms, m.value.isSound = true := by
  induction ms generalizing slots with
  | nil => exact List.forall_mem_nil _
  | cons m ms ih =>
    obtain ⟨key, _, h⟩ := Outcome.bind_eq_ok_iff.1 h
    obtain ⟨slots₁, hput, h⟩ := Outcome.bind_eq_ok_iff.1 h
    obtain ⟨hm, hms⟩ := List.forall_mem_cons.1 hms
    exact List.forall_mem_cons.2 ⟨sound_of_put hm hf hput, ih hms h⟩

theorem Record.readsSound {α : Type} (record : Record α)
    (hf : ∀ f ∈ record.fields, f.codec.ReadsSound) : record.codec.ReadsSound := by
  intro levels t x ht h
  change record.read levels t = .ok x at h
  rw [Record.read.eq_def] at h
  split at h
  · cases h
  · cases h
  · obtain ⟨values, hvalues, _⟩ := Outcome.map_eq_ok_iff.1 h
    obtain ⟨hes, hending⟩ := sound_of_ofElements hf (fun _ he => isSpelled_element ht he) hvalues
    exact isSound_of_all_elements hes hending
  · obtain ⟨values, hvalues, _⟩ := Outcome.map_eq_ok_iff.1 h
    obtain ⟨slots, hslots, hvalues⟩ := Outcome.bind_eq_ok_iff.1 hvalues
    obtain ⟨u, hending, _⟩ := Outcome.bind_eq_ok_iff.1 hvalues
    have hms := sound_of_putAll hf (fun _ hm => (isSpelled_member ht hm).1) hslots
    refine isSound_of_all_members ?_ (Ending.check_eq_ok_iff.1 hending)
    exact fun m hm => ⟨(isSpelled_member ht hm).2 (hms m hm), hms m hm⟩
  · cases h

end Json

end MarketFeed
