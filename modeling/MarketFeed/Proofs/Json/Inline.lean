import MarketFeed.Json.Inline
import MarketFeed.Proofs.Json.Fields

/-!
# Kept values and the text they come from

A value that has been kept stands for what its text stands for (`value_iff_of_kept`), and the codecs
of inline records read it as they read the text (`InlineCodec.Agrees`).  So the members of a record
that have been kept are read as they would be where they stand (`replayAll_iff_putAll`).
-/

namespace MarketFeed

namespace Json

open Node

/-! ### Kept values -/

/-- A kept tree stands for what the tree stands for: members behind the raw key are a fault of
either, though not the same one. -/
theorem value_iff_of_kept {levels : Nat} {t : Node} {b : Buffered}
    (h : Buffered.ofNode? levels t = some b) {v : Value} :
    Value.ofNode levels t = .ok v ↔ b.value = .ok v := by
  obtain ⟨rfl, _⟩ := Buffered.ofNode?_eq_some_iff.1 h
  exact ⟨Buffered.readWith_surplus, Buffered.readWith_surplus⟩

/-- What stands for a value can be kept. -/
theorem kept_of_value {levels : Nat} {t : Node} {v : Value} (h : Value.ofNode levels t = .ok v) :
    (Buffered.ofNode? levels t).isSome = true :=
  Buffered.isSome_ofNode?.2 (Buffered.isWhole_of_readWith h)

theorem isSound_of_kept {levels : Nat} {t : Node} {b : Buffered}
    (h : Buffered.ofNode? levels t = some b) : t.isSound = true := by
  obtain ⟨rfl, hwhole⟩ := Buffered.ofNode?_eq_some_iff.1 h
  exact Buffered.isSound_of_isWhole hwhole

/-- A tree and what it is kept as are of one kind, and the leaves stand for the same. -/
inductive Buffered.Matches : Node → Buffered → Prop where
  | null : Matches .null .null
  | bool (b : Bool) : Matches (.bool b) (.bool b)
  | number {n : Numeral} {x : Number} (h : n.number? = some x) : Matches (.number n) (.number x)
  | string {body : List StringPart} {s : String} (h : StringPart.decode? body = some s) :
    Matches (.string body) (.string s)
  | array (es : List (Spaced Node)) (ending : Ending) (vs : List Buffered) :
    Matches (.array es ending) (.array vs)
  | object (ms : List (Entry Node)) (ending : Ending) (vs : List (String × Buffered)) :
    Matches (.object ms ending) (.object vs)

theorem matches_of_kept {levels : Nat} {t : Node} {b : Buffered}
    (h : Buffered.ofNode? levels t = some b) : Buffered.Matches t b := by
  obtain ⟨rfl, hwhole⟩ := Buffered.ofNode?_eq_some_iff.1 h
  cases t with
  | null => exact .null
  | bool b => exact .bool b
  | number n =>
    rw [Buffered.ofNode] at hwhole ⊢
    cases hn : n.number? with
    | none =>
      rw [hn] at hwhole
      cases hwhole
    | some x => exact .number hn
  | string body =>
    rw [Buffered.ofNode] at hwhole ⊢
    cases hbody : StringPart.decode? body with
    | none =>
      rw [hbody] at hwhole
      cases hwhole
    | some s => exact .string hbody
  | array es ending =>
    cases levels with
    | zero => cases hwhole
    | succ levels => exact .array es ending _
  | object ms ending =>
    cases levels with
    | zero => cases hwhole
    | succ levels => exact .object ms ending _
  | broken rest => cases hwhole

theorem mismatch_of_matches {t : Node} {b : Buffered} (h : Buffered.Matches t b)
    (expected : String) : mismatch t expected = b.mismatch expected := by
  cases h with
  | number hx => simp [mismatch, Found.ofNode?, Buffered.mismatch, Buffered.found?, hx]
  | string hs => simp [mismatch, Found.ofNode?, Buffered.mismatch, Buffered.found?, hs]
  | _ => rfl

/-! ### Codecs -/

namespace InlineCodec

/-- A kept value is read as its text is, and what is read can be kept. -/
structure Agrees {α : Type} (codec : InlineCodec α) : Prop where
  replay : ∀ levels t b, Buffered.ofNode? levels t = some b →
    ∀ x, codec.read levels t = .ok x ↔ codec.replay b = .ok x
  kept : ∀ levels t x, codec.read levels t = .ok x → (Buffered.ofNode? levels t).isSome = true

theorem readText_of_matches {t : Node} {b : Buffered} (h : Buffered.Matches t b) :
    Codec.readText "a string" t = b.readText "a string" := by
  have hmismatch := mismatch_of_matches h "a string"
  cases h with
  | string hs => simp [Codec.readText, Buffered.readText, hs]
  | _ => exact congrArg Except.error hmismatch

theorem kept_of_readText {levels : Nat} {expected s : String} {t : Node}
    (h : Codec.readText expected t = .ok s) : (Buffered.ofNode? levels t).isSome = true := by
  obtain ⟨body, rfl, hs⟩ := Codec.readText_eq_ok_iff.1 h
  rw [Buffered.isSome_ofNode?, Buffered.ofNode, hs]
  rfl

/-- Where a kept value is read as its text is, the same is read. -/
theorem agrees_of_eq {α : Type} {x y : Except Fault α} (h : x = y) (a : α) :
    x = .ok a ↔ y = .ok a := by
  rw [h]

@[simp] theorem agrees_text : text.Agrees where
  replay _ _ _ h := agrees_of_eq (readText_of_matches (matches_of_kept h))
  kept _ _ _ h := kept_of_readText h

@[simp] theorem agrees_named {α : Type} [BEq α] (ofText : String → α)
    (toText inspect : α → String) : (named ofText toText inspect).Agrees where
  replay _ _ _ h :=
    agrees_of_eq (congrArg (Except.map ofText) (readText_of_matches (matches_of_kept h)))
  kept _ _ _ h := by
    obtain ⟨s, hs, _⟩ := Outcome.map_eq_ok_iff.1 h
    exact kept_of_readText hs

@[simp] theorem agrees_flag : flag.Agrees where
  replay _ _ _ h := by
    have hmatches := matches_of_kept h
    have hmismatch := mismatch_of_matches hmatches "a boolean"
    refine agrees_of_eq ?_
    cases hmatches with
    | bool b => rfl
    | _ => exact congrArg Except.error hmismatch
  kept _ t _ h := by
    cases t with
    | bool b => rfl
    | _ => cases h

@[simp] theorem agrees_octet : octet.Agrees where
  replay _ _ _ h := by
    have hmatches := matches_of_kept h
    have hmismatch := mismatch_of_matches hmatches "u8"
    refine agrees_of_eq ?_
    cases hmatches with
    | number hx => simp [octet, Codec.octet, Codec.readNatural, hx]
    | _ => exact congrArg Except.error hmismatch
  kept _ t _ h := by
    obtain ⟨n, hn, _⟩ := Outcome.map_eq_ok_iff.1 h
    cases t with
    | number numeral =>
      cases hx : numeral.number? with
      | none => simp [Codec.readNatural, hx] at hn
      | some x =>
        rw [Buffered.isSome_ofNode?, Buffered.ofNode, hx]
        rfl
    | _ => cases hn

@[simp] theorem agrees_word : word.Agrees where
  replay _ _ _ h n := by
    simp only [word, Codec.word, Outcome.bind_eq_ok_iff, value_iff_of_kept h]
  kept levels t n h := by
    obtain ⟨v, hv, _⟩ := Outcome.bind_eq_ok_iff.1 h
    exact kept_of_value hv

@[simp] theorem agrees_looseDecimal : looseDecimal.Agrees where
  replay _ _ _ h d := by
    simp only [looseDecimal, Codec.looseDecimal, Outcome.bind_eq_ok_iff, value_iff_of_kept h]
  kept levels t d h := by
    obtain ⟨v, hv, _⟩ := Outcome.bind_eq_ok_iff.1 h
    exact kept_of_value hv

end InlineCodec

/-! ### Members -/

/-- A member as it is kept. -/
def Entry.kept? (levels : Nat) (m : Entry Node) : Option (String × Buffered) := do
  return (← StringPart.decode? m.key, ← Buffered.ofNode? levels m.value)

theorem kept?_eq_some_iff {levels : Nat} {m : Entry Node} {key : String} {b : Buffered} :
    m.kept? levels = some (key, b) ↔
      StringPart.decode? m.key = some key ∧ Buffered.ofNode? levels m.value = some b := by
  cases hkey : StringPart.decode? m.key <;> cases hb : Buffered.ofNode? levels m.value <;>
    simp [Entry.kept?, hkey, hb]

variable {fields : List InlineField}

/-- A kept member is read into the slots as it is where it stands. -/
theorem replay_iff_put (hfields : ∀ f ∈ fields, f.codec.Agrees) {levels : Nat} {key : String}
    {t : Node} {b : Buffered} (h : Buffered.ofNode? levels t = some b)
    {slots slots' : Slots (fields.map InlineField.field)} :
    Slots.replay key b fields slots = .ok slots' ↔ slots.put levels key t = .ok slots' := by
  induction fields with
  | nil =>
    have hput : slots.put levels key t = .ok slots := if_pos (isSound_of_kept h)
    rw [hput]
    rfl
  | cons f fields ih =>
    obtain ⟨hf, hfields⟩ := List.forall_mem_cons.1 hfields
    obtain ⟨slot, slots⟩ := slots
    change ite _ (ite _ _ (Except.map _ _)) (Except.map _ _) = _ ↔
      ite _ (ite _ _ (Except.map _ _)) (Except.map _ _) = _
    split_ifs
    · rfl
    · exact Outcome.map_congr_ok (fun x => (hf.replay levels t b h x).symm) _ _
    · exact Outcome.map_congr_ok (fun _ => ih hfields) _ _

/-- Kept members are read into the slots as they are where they stand. -/
theorem replayAll_iff_putAll (hfields : ∀ f ∈ fields, f.codec.Agrees) {levels : Nat}
    {ms : List (Entry Node)} {kept : List (String × Buffered)}
    (h : ms.mapM (Entry.kept? levels) = some kept)
    {slots slots' : Slots (fields.map InlineField.field)} :
    slots.replayAll fields kept = .ok slots' ↔
      slots.putAll levels (fields.map InlineField.field) ms = .ok slots' := by
  rw [Outcome.optionMapM_eq_some_iff] at h
  induction h generalizing slots with
  | nil => rfl
  | @cons m keep ms kept hm _ ih =>
    obtain ⟨key, b⟩ := keep
    obtain ⟨hkey, hb⟩ := kept?_eq_some_iff.1 hm
    have hkeyText : Codec.readText "a string" (.string m.key) = .ok key :=
      Codec.readText_eq_ok_iff.2 ⟨m.key, rfl, hkey⟩
    rw [Slots.replayAll, Slots.putAll, hkeyText]
    change _ ↔ (slots.put levels key m.value >>= _) = _
    simp only [Outcome.bind_eq_ok_iff, replay_iff_put hfields hb, ih]

/-- A member that can be kept. -/
def Entry.IsKept (levels : Nat) (m : Entry Node) : Prop := (m.kept? levels).isSome = true

theorem Entry.isKept_iff {levels : Nat} {m : Entry Node} :
    m.IsKept levels ↔ (StringPart.decode? m.key).isSome = true ∧
      (Buffered.ofNode? levels m.value).isSome = true := by
  rw [IsKept, kept?]
  cases StringPart.decode? m.key <;> cases Buffered.ofNode? levels m.value <;> simp

theorem Entry.IsKept.isIgnorable {levels : Nat} {m : Entry Node} (h : m.IsKept levels) :
    m.isIgnorable = true := by
  obtain ⟨hkey, hvalue⟩ := Entry.isKept_iff.1 h
  obtain ⟨b, hb⟩ := Option.isSome_iff_exists.1 hvalue
  exact Bool.and_eq_true_iff.2 ⟨hkey, isSound_of_kept hb⟩

/-- Members are kept together if each of them can be kept. -/
theorem exists_kept_iff {levels : Nat} {ms : List (Entry Node)} :
    (∃ kept, ms.mapM (Entry.kept? levels) = some kept) ↔ ∀ m ∈ ms, m.IsKept levels := by
  constructor
  · rintro ⟨kept, h⟩ m hm
    obtain ⟨_, _, hkept⟩ := Outcome.exists_of_forall₂ (Outcome.optionMapM_eq_some_iff.1 h) hm
    exact Option.isSome_iff_exists.2 ⟨_, hkept⟩
  · intro h
    induction ms with
    | nil => exact ⟨[], rfl⟩
    | cons m ms ih =>
      obtain ⟨hm, hms⟩ := List.forall_mem_cons.1 h
      obtain ⟨keep, hkeep⟩ := Option.isSome_iff_exists.1 hm
      obtain ⟨kept, hkept⟩ := ih hms
      refine ⟨keep :: kept, ?_⟩
      rw [Outcome.optionMapM_eq_some_iff] at hkept ⊢
      exact .cons hkeep hkept

/-- A record is read from members that have been kept exactly if what they have for each field reads
as the value of the field. -/
theorem InlineRecord.replay_eq_ok_iff {α : Type} {r : InlineRecord α}
    (hfields : ∀ f ∈ r.fields, f.codec.Agrees)
    (hkeys : ((r.fields.map InlineField.field).flatMap Field.keys).Nodup)
    {levels : Nat} {ms : List (Entry Node)} {kept : List (String × Buffered)}
    (h : ms.mapM (Entry.kept? levels) = some kept) (ending : Ending) {a : α} :
    r.replay kept = .ok a ↔ ∃ xs,
      Values.Hold levels (object ms ending) (r.fields.map InlineField.field) 0 xs ∧
        r.ofValues xs = a := by
  have hms : ∀ m ∈ ms, m.isNamed ((r.fields.map InlineField.field).flatMap Field.keys) = true ∨
      m.isIgnorable = true :=
    fun m hm => Or.inr (exists_kept_iff.1 ⟨kept, h⟩ m hm).isIgnorable
  have hholds (xs) : Values.Hold levels (object ms ending) (r.fields.map InlineField.field) 0 xs ↔
      Values.ofMembers levels (r.fields.map InlineField.field) ms (.closed []) = .ok xs := by
    have hending : Values.Hold levels (object ms ending) (r.fields.map InlineField.field) 0 xs ↔
        Values.Hold levels (object ms (.closed [])) (r.fields.map InlineField.field) 0 xs :=
      hold_congr fun _ _ _ => rfl
    rw [Values.ofMembers_eq_ok_iff hkeys 0, hending]
    exact ⟨fun hxs => ⟨rfl, hms, hxs⟩, fun hxs => hxs.2.2⟩
  simp only [hholds, ofMembers_iff]
  rw [InlineRecord.replay, Outcome.bind_eq_ok_iff]
  simp only [replayAll_iff_putAll hfields h]
  constructor
  · rintro ⟨slots, hslots, hvalues⟩
    obtain ⟨xs, hxs, ha⟩ := Outcome.map_eq_ok_iff.1 hvalues
    exact ⟨xs, ⟨rfl, slots, hslots, hxs⟩, ha⟩
  · rintro ⟨xs, ⟨_, slots, hslots, hxs⟩, ha⟩
    exact ⟨slots, hslots, Outcome.map_eq_ok_iff.2 ⟨xs, hxs, ha⟩⟩

/-- Members with the key of a field can be kept if the field has a value. -/
theorem kept_of_hold {levels : Nat} {fields : List InlineField}
    (hfields : ∀ f ∈ fields, f.codec.Agrees) {ms : List (Entry Node)} {ending : Ending}
    {position : Nat} {xs : Values (fields.map InlineField.field)}
    (h : Values.Hold levels (object ms ending) (fields.map InlineField.field) position xs)
    {m : Entry Node} (hm : m ∈ ms)
    (hnamed : m.isNamed ((fields.map InlineField.field).flatMap Field.keys) = true) :
    m.IsKept levels := by
  induction fields generalizing position with
  | nil =>
    rw [List.map_nil, List.flatMap_nil, Entry.isNamed_nil] at hnamed
    cases hnamed
  | cons f fields ih =>
    obtain ⟨hf, hfields⟩ := List.forall_mem_cons.1 hfields
    obtain ⟨x, xs⟩ := xs
    obtain ⟨hx, hxs⟩ := h
    rw [List.map_cons, List.flatMap_cons, Entry.isNamed_append, Bool.or_eq_true] at hnamed
    obtain hnamed | hnamed := hnamed
    · have hmem : m.value ∈ valuesNamed f.field.keys ms :=
        List.mem_map_of_mem (List.mem_filter.2 ⟨hm, hnamed⟩)
      obtain ⟨hvalues, _⟩ | ⟨v, hvalues, hread⟩ := hx
      · rw [show valuesNamed f.field.keys ms = [] from hvalues] at hmem
        cases hmem
      · rw [show valuesNamed f.field.keys ms = [v] from hvalues, List.mem_singleton] at hmem
        subst hmem
        refine Entry.isKept_iff.2 ⟨?_, hf.kept levels m.value x hread⟩
        cases hkey : StringPart.decode? m.key with
        | none => simp [Entry.isNamed, hkey] at hnamed
        | some key => rfl
    · exact ih hfields hxs hnamed

end Json

end MarketFeed
