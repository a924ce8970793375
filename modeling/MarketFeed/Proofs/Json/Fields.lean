import MarketFeed.Json.Record
import MarketFeed.Proofs.Json.Reading

/-!
# Records field by field

A tree has values for a field (`Node.fieldValues`): those of the members with one of its keys in an
object, the element at its position in an array.  A record is read from an object exactly if what it
has for each field reads as the value of the field (`Values.ofMembers_eq_ok_iff`); the values of a
record that is read from an array come from its elements in the same way (`Record.hold_of_read`).
-/

namespace MarketFeed

namespace Json

open Node

/-- The keys of the members that are values of the field. -/
def Field.keys (f : Field) : List String := f.key :: f.alias?.toList

/-- Whether a member has one of the given keys. -/
def Entry.isNamed (keys : List String) (m : Entry Node) : Bool :=
  (StringPart.decode? m.key).any keys.contains

/-- Whether a member of no field is passed over. -/
def Entry.isIgnorable (m : Entry Node) : Bool :=
  (StringPart.decode? m.key).isSome && m.value.isSound

/-- The values of the members with one of the given keys. -/
def valuesNamed (keys : List String) (ms : List (Entry Node)) : List Node :=
  (ms.filter (·.isNamed keys)).map (·.value)

/-- The values that a tree has for a field with the given keys and position. -/
def Node.fieldValues (keys : List String) (position : Nat) : Node → List Node
  | object ms _ => valuesNamed keys ms
  | array es _ => (es[position]?).toList.map (·.value)
  | _ => []

/-- What is read for a field from the values that there are for it. -/
def Field.Holds (levels : Nat) (f : Field) (values : List Node) (x : f.Carrier) : Prop :=
  (values = [] ∧ f.absence.object? = some x) ∨
    ∃ v, values = [v] ∧ f.codec.read levels v = .ok x

/-- What is read for fields, the first of which has the given position. -/
def Values.Hold (levels : Nat) (t : Node) : (fields : List Field) → Nat → Values fields → Prop
  | [], _, () => True
  | f :: fields, position, (x, xs) =>
    f.Holds levels (t.fieldValues f.keys position) x ∧ Hold levels t fields (position + 1) xs

/-! ### Keys -/

theorem Field.isNamed_eq (f : Field) (key : String) : f.isNamed key = f.keys.contains key := by
  rw [isNamed, keys, Bool.eq_iff_iff, List.contains_iff_mem, Bool.or_eq_true, beq_iff_eq,
    beq_iff_eq, List.mem_cons, Option.mem_toList]

theorem Entry.isNamed_of_decode? {m : Entry Node} {key : String}
    (h : StringPart.decode? m.key = some key) (keys : List String) :
    m.isNamed keys = keys.contains key := by
  rw [isNamed, h, Option.any_some]

theorem Entry.isNamed_append (keys keys' : List String) (m : Entry Node) :
    m.isNamed (keys ++ keys') = (m.isNamed keys || m.isNamed keys') := by
  rw [isNamed, isNamed, isNamed]
  cases StringPart.decode? m.key <;> simp

theorem Entry.isNamed_nil (m : Entry Node) : m.isNamed [] = false := by
  rw [isNamed]
  cases StringPart.decode? m.key <;> rfl

/-- Keys that have nothing in common do not name the same member. -/
theorem Entry.not_isNamed {keys keys' : List String} (h : keys.Disjoint keys') {m : Entry Node}
    (hm : m.isNamed keys' = true) : m.isNamed keys = false := by
  rw [isNamed] at hm ⊢
  cases hkey : StringPart.decode? m.key with
  | none => rfl
  | some key =>
    rw [hkey, Option.any_some, List.contains_iff_mem] at hm
    rw [Option.any_some, Bool.eq_false_iff]
    intro hkeys
    exact h (List.contains_iff_mem.1 hkeys) hm

theorem Entry.isNamed_of_subset {keys keys' : List String} (h : keys ⊆ keys') {m : Entry Node}
    (hm : m.isNamed keys' = false) : m.isNamed keys = false := by
  unfold isNamed at hm ⊢
  cases hkey : StringPart.decode? m.key with
  | none => rfl
  | some key =>
    simp only [hkey, Option.any_some, List.contains_eq_mem, decide_eq_false_iff_not] at hm ⊢
    exact fun hmem => hm (h hmem)

theorem forall_mem_valuesNamed {keys : List String} {ms : List (Entry Node)} {p : Node → Prop} :
    (∀ v ∈ valuesNamed keys ms, p v) ↔ ∀ m ∈ ms, m.isNamed keys = true → p m.value := by
  simp only [valuesNamed, List.forall_mem_map, List.mem_filter, and_imp]

theorem valuesNamed_filter {keys keys' : List String} (h : keys.Disjoint keys')
    (ms : List (Entry Node)) :
    valuesNamed keys' (ms.filter fun m => !m.isNamed keys) = valuesNamed keys' ms := by
  rw [valuesNamed, valuesNamed, List.filter_filter]
  congr 1
  apply List.filter_congr
  intro m _
  cases hm : m.isNamed keys' with
  | false => rfl
  | true => rw [Entry.not_isNamed h hm]; rfl

/-! ### Members -/

/-- What a slot of a field holds after the values that there are for it. -/
def Field.Fills (levels : Nat) (f : Field) :
    Option f.Carrier → List Node → Option f.Carrier → Prop
  | slot, [], slot' => slot' = slot
  | none, [v], slot' => ∃ x, f.codec.read levels v = .ok x ∧ slot' = some x
  | _, _, _ => False

theorem putAll_cons_iff {levels : Nat} {fields : List Field} {m : Entry Node}
    {ms : List (Entry Node)} {slots slots' : Slots fields} :
    slots.putAll levels fields (m :: ms) = .ok slots' ↔
      ∃ key slots₁, StringPart.decode? m.key = some key ∧
        slots.put levels key m.value = .ok slots₁ ∧
          slots₁.putAll levels fields ms = .ok slots' := by
  rw [Slots.putAll, Outcome.bind_eq_ok_iff]
  constructor
  · rintro ⟨key, hkey, h⟩
    obtain ⟨slots₁, hput, h⟩ := Outcome.bind_eq_ok_iff.1 h
    refine ⟨key, slots₁, ?_, hput, h⟩
    rw [Codec.readText] at hkey
    split at hkey
    · next s hs => rw [hs, Except.ok.inj hkey]
    · cases hkey
  · rintro ⟨key, slots₁, hkey, hput, h⟩
    refine ⟨key, ?_, Outcome.bind_eq_ok_iff.2 ⟨slots₁, hput, h⟩⟩
    rw [Codec.readText, hkey]

theorem put_named {levels : Nat} {key : String} {value : Node} {f : Field} {fields : List Field}
    (h : f.keys.contains key = true) {slot slot' : Option f.Carrier}
    {slots slots' : Slots fields} :
    Slots.put levels key value (f :: fields) (slot, slots) = .ok (slot', slots') ↔
      slot = none ∧ slots' = slots ∧
        ∃ x, f.codec.read levels value = .ok x ∧ slot' = some x := by
  rw [Slots.put, Field.isNamed_eq, if_pos h]
  cases slot with
  | some x =>
    constructor
    · intro h
      cases h
    · rintro ⟨h, _⟩
      cases h
  | none =>
    have hnone : ¬(none : Option f.Carrier).isSome = true := Bool.false_ne_true
    rw [if_neg hnone]
    constructor
    · intro h
      obtain ⟨x, hx, he⟩ := Outcome.map_eq_ok_iff.1 h
      obtain ⟨rfl, rfl⟩ := Prod.mk.inj he
      exact ⟨rfl, rfl, x, hx, rfl⟩
    · rintro ⟨_, rfl, x, hx, rfl⟩
      exact Outcome.map_eq_ok_iff.2 ⟨x, hx, rfl⟩

theorem put_unnamed {levels : Nat} {key : String} {value : Node} {f : Field}
    {fields : List Field} (h : f.keys.contains key = false) {slot slot' : Option f.Carrier}
    {slots slots' : Slots fields} :
    Slots.put levels key value (f :: fields) (slot, slots) = .ok (slot', slots') ↔
      slot' = slot ∧ slots.put levels key value = .ok slots' := by
  rw [Slots.put, Field.isNamed_eq, h, if_neg (by decide)]
  constructor
  · intro h
    obtain ⟨slots₁, hput, he⟩ := Outcome.map_eq_ok_iff.1 h
    obtain ⟨rfl, rfl⟩ := Prod.mk.inj he
    exact ⟨rfl, hput⟩
  · rintro ⟨rfl, hput⟩
    exact Outcome.map_eq_ok_iff.2 ⟨slots', hput, rfl⟩

theorem fills_cons_iff {levels : Nat} {f : Field} {slot slot' : Option f.Carrier} {v : Node}
    {vs : List Node} : f.Fills levels slot (v :: vs) slot' ↔
      slot = none ∧ ∃ x, f.codec.read levels v = .ok x ∧ f.Fills levels (some x) vs slot' := by
  cases slot with
  | some x => simp [Field.Fills]
  | none => cases vs <;> simp [Field.Fills]

/-- A member of the first field fills its slot, which was empty. -/
theorem putAll_named_iff {levels : Nat} {f : Field} {fields : List Field} {m : Entry Node}
    {ms : List (Entry Node)} (hnamed : m.isNamed f.keys = true) {slot : Option f.Carrier}
    {slots : Slots fields} {slots' : Slots (f :: fields)} :
    Slots.putAll levels (f :: fields) (slot, slots) (m :: ms) = .ok slots' ↔
      slot = none ∧ ∃ x, f.codec.read levels m.value = .ok x ∧
        Slots.putAll levels (f :: fields) (some x, slots) ms = .ok slots' := by
  refine putAll_cons_iff.trans ?_
  constructor
  · rintro ⟨key, ⟨slot₁, slots₁⟩, hkey, hput, h⟩
    rw [Entry.isNamed_of_decode? hkey] at hnamed
    obtain ⟨hslot, rfl, x, hx, rfl⟩ := (put_named hnamed).1 hput
    exact ⟨hslot, x, hx, h⟩
  · rintro ⟨hslot, x, hx, h⟩
    cases hkey : StringPart.decode? m.key with
    | none => simp [Entry.isNamed, hkey] at hnamed
    | some key =>
      rw [Entry.isNamed_of_decode? hkey] at hnamed
      exact ⟨key, (some x, slots), rfl, (put_named hnamed).2 ⟨hslot, rfl, x, hx, rfl⟩, h⟩

/-- Any other member is for the fields behind the first. -/
theorem putAll_unnamed_iff {levels : Nat} {f : Field} {fields : List Field} {m : Entry Node}
    {ms : List (Entry Node)} (hnamed : m.isNamed f.keys = false) {slot : Option f.Carrier}
    {slots : Slots fields} {slots' : Slots (f :: fields)} :
    Slots.putAll levels (f :: fields) (slot, slots) (m :: ms) = .ok slots' ↔
      ∃ key slots₁, StringPart.decode? m.key = some key ∧
        slots.put levels key m.value = .ok slots₁ ∧
          Slots.putAll levels (f :: fields) (slot, slots₁) ms = .ok slots' := by
  refine putAll_cons_iff.trans ?_
  constructor
  · rintro ⟨key, ⟨slot₁, slots₁⟩, hkey, hput, h⟩
    rw [Entry.isNamed_of_decode? hkey] at hnamed
    obtain ⟨rfl, hrest⟩ := (put_unnamed hnamed).1 hput
    exact ⟨key, slots₁, hkey, hrest, h⟩
  · rintro ⟨key, slots₁, hkey, hput, h⟩
    rw [Entry.isNamed_of_decode? hkey] at hnamed
    exact ⟨key, (slot, slots₁), hkey, (put_unnamed hnamed).2 ⟨rfl, hput⟩, h⟩

theorem valuesNamed_cons_pos {keys : List String} {m : Entry Node} (h : m.isNamed keys = true)
    (ms : List (Entry Node)) : valuesNamed keys (m :: ms) = m.value :: valuesNamed keys ms := by
  rw [valuesNamed, List.filter_cons_of_pos h, List.map_cons, valuesNamed]

theorem valuesNamed_cons_neg {keys : List String} {m : Entry Node} (h : m.isNamed keys = false)
    (ms : List (Entry Node)) : valuesNamed keys (m :: ms) = valuesNamed keys ms := by
  rw [valuesNamed, List.filter_cons_of_neg (by simp [h]), valuesNamed]

theorem valuesNamed_append (keys : List String) (ms ms' : List (Entry Node)) :
    valuesNamed keys (ms ++ ms') = valuesNamed keys ms ++ valuesNamed keys ms' := by
  rw [valuesNamed, List.filter_append, List.map_append, valuesNamed, valuesNamed]

/-- Members are read field by field: those of the first field, and the others. -/
theorem putAll_iff {levels : Nat} {f : Field} {fields : List Field} {ms : List (Entry Node)}
    {slot slot' : Option f.Carrier} {slots slots' : Slots fields} :
    Slots.putAll levels (f :: fields) (slot, slots) ms = .ok (slot', slots') ↔
      f.Fills levels slot (valuesNamed f.keys ms) slot' ∧
        slots.putAll levels fields (ms.filter fun m => !m.isNamed f.keys) = .ok slots' := by
  induction ms generalizing slot slots with
  | nil =>
    constructor
    · intro h
      obtain ⟨rfl, rfl⟩ := Prod.mk.inj (Except.ok.inj h)
      exact ⟨rfl, rfl⟩
    · rintro ⟨rfl, h⟩
      obtain rfl := Except.ok.inj h
      rfl
  | cons m ms ih =>
    cases hnamed : m.isNamed f.keys with
    | true =>
      refine (putAll_named_iff hnamed).trans ?_
      rw [valuesNamed_cons_pos hnamed, fills_cons_iff,
        List.filter_cons_of_neg (by simp [hnamed])]
      constructor
      · rintro ⟨hslot, x, hx, h⟩
        obtain ⟨hfills, h⟩ := ih.1 h
        exact ⟨⟨hslot, x, hx, hfills⟩, h⟩
      · rintro ⟨⟨hslot, x, hx, hfills⟩, h⟩
        exact ⟨hslot, x, hx, ih.2 ⟨hfills, h⟩⟩
    | false =>
      refine (putAll_unnamed_iff hnamed).trans ?_
      rw [valuesNamed_cons_neg hnamed, List.filter_cons_of_pos (by simp [hnamed]),
        putAll_cons_iff]
      constructor
      · rintro ⟨key, slots₁, hkey, hput, h⟩
        obtain ⟨hfills, h⟩ := ih.1 h
        exact ⟨hfills, key, slots₁, hkey, hput, h⟩
      · rintro ⟨hfills, key, slots₁, hkey, hput, h⟩
        exact ⟨key, slots₁, hkey, hput, ih.2 ⟨hfills, h⟩⟩

theorem putAll_nil_iff {levels : Nat} {ms : List (Entry Node)} {slots slots' : Slots []} :
    slots.putAll levels [] ms = .ok slots' ↔ ∀ m ∈ ms, m.isIgnorable = true := by
  induction ms with
  | nil => exact ⟨fun _ => List.forall_mem_nil _, fun _ => rfl⟩
  | cons m ms ih =>
    rw [putAll_cons_iff, List.forall_mem_cons, ← ih, Entry.isIgnorable]
    constructor
    · rintro ⟨key, slots₁, hkey, hput, h⟩
      refine ⟨?_, h⟩
      change (if m.value.isSound then Except.ok () else .error Fault.grammar) = _ at hput
      split at hput
      · next hsound => rw [hkey, hsound]; rfl
      · cases hput
    · rintro ⟨hm, h⟩
      obtain ⟨hkey, hsound⟩ := Bool.and_eq_true_iff.1 hm
      obtain ⟨key, hkey⟩ := Option.isSome_iff_exists.1 hkey
      refine ⟨key, (), hkey, ?_, h⟩
      change (if m.value.isSound then Except.ok () else .error Fault.grammar) = _
      rw [if_pos hsound]
      rfl

/-! ### Objects -/

theorem values_cons_iff {f : Field} {fields : List Field} {slot : Option f.Carrier}
    {slots : Slots fields} {x : f.Carrier} {xs : Values fields} :
    Slots.values (f :: fields) (slot, slots) = .ok (x, xs) ↔
      slot.or f.absence.object? = some x ∧ slots.values = .ok xs := by
  rw [Slots.values]
  cases slot.or f.absence.object? with
  | none => simp
  | some y =>
    constructor
    · intro h
      obtain ⟨xs', hxs, he⟩ := Outcome.map_eq_ok_iff.1 h
      obtain ⟨rfl, rfl⟩ := Prod.mk.inj he
      exact ⟨rfl, hxs⟩
    · rintro ⟨h, hxs⟩
      obtain rfl := Option.some.inj h
      exact Outcome.map_eq_ok_iff.2 ⟨xs, hxs, rfl⟩

/-- A field holds a value exactly if the values for it fill its slot so, or leave it to the rule for
its absence. -/
theorem holds_iff {levels : Nat} {f : Field} {vs : List Node} {x : f.Carrier} :
    f.Holds levels vs x ↔
      ∃ slot, f.Fills levels none vs slot ∧ slot.or f.absence.object? = some x := by
  cases vs with
  | nil => simp [Field.Holds, Field.Fills]
  | cons v vs =>
    cases vs with
    | nil => simp [Field.Holds, Field.Fills]
    | cons v' vs => simp [Field.Holds, Field.Fills]

theorem ofMembers_iff {levels : Nat} {fields : List Field} {ms : List (Entry Node)}
    {ending : Ending} {xs : Values fields} :
    Values.ofMembers levels fields ms ending = .ok xs ↔ ending.isClosed = true ∧
      ∃ slots, (Slots.empty fields).putAll levels fields ms = .ok slots ∧
        slots.values = .ok xs := by
  rw [Values.ofMembers, Outcome.bind_eq_ok_iff]
  constructor
  · rintro ⟨slots, hslots, h⟩
    obtain ⟨u, hending, h⟩ := Outcome.bind_eq_ok_iff.1 h
    exact ⟨Ending.check_eq_ok_iff.1 hending, slots, hslots, h⟩
  · rintro ⟨hending, slots, hslots, h⟩
    exact ⟨slots, hslots,
      Outcome.bind_eq_ok_iff.2 ⟨(), Ending.check_eq_ok_iff.2 hending, h⟩⟩

theorem ofMembers_cons_iff {levels : Nat} {f : Field} {fields : List Field}
    {ms : List (Entry Node)} {ending : Ending} {x : f.Carrier} {xs : Values fields} :
    Values.ofMembers levels (f :: fields) ms ending = .ok (x, xs) ↔
      f.Holds levels (valuesNamed f.keys ms) x ∧
        Values.ofMembers levels fields (ms.filter fun m => !m.isNamed f.keys) ending = .ok xs := by
  refine ofMembers_iff.trans ?_
  rw [ofMembers_iff, holds_iff]
  constructor
  · rintro ⟨hending, ⟨slot, slots⟩, hput, hvalues⟩
    obtain ⟨hfills, hput⟩ := putAll_iff.1 hput
    obtain ⟨hslot, hvalues⟩ := values_cons_iff.1 hvalues
    exact ⟨⟨slot, hfills, hslot⟩, hending, slots, hput, hvalues⟩
  · rintro ⟨⟨slot, hfills, hslot⟩, hending, slots, hput, hvalues⟩
    exact ⟨hending, (slot, slots), putAll_iff.2 ⟨hfills, hput⟩,
      values_cons_iff.2 ⟨hslot, hvalues⟩⟩

theorem hold_congr {levels : Nat} {t t' : Node} {fields : List Field} {position : Nat}
    {xs : Values fields} (h : ∀ f ∈ fields, ∀ position,
      t.fieldValues f.keys position = t'.fieldValues f.keys position) :
    Values.Hold levels t fields position xs ↔ Values.Hold levels t' fields position xs := by
  induction fields generalizing position with
  | nil => exact Iff.rfl
  | cons f fields ih =>
    obtain ⟨x, xs⟩ := xs
    obtain ⟨hf, hfields⟩ := List.forall_mem_cons.1 h
    rw [Values.Hold, Values.Hold, hf position, ih hfields]

/-- An object has values for the fields of a record exactly if the ending is there, the other
members have texts as keys and values without a break, and each field holds. -/
theorem Values.ofMembers_eq_ok_iff {levels : Nat} {fields : List Field}
    (hkeys : (fields.flatMap Field.keys).Nodup) {ms : List (Entry Node)} {ending : Ending}
    (position : Nat) {xs : Values fields} :
    Values.ofMembers levels fields ms ending = .ok xs ↔ ending.isClosed = true ∧
      (∀ m ∈ ms, m.isNamed (fields.flatMap Field.keys) = true ∨ m.isIgnorable = true) ∧
      Values.Hold levels (object ms ending) fields position xs := by
  induction fields generalizing ms position with
  | nil =>
    rw [ofMembers_iff]
    simp only [List.flatMap_nil, Entry.isNamed_nil, Bool.false_eq_true, false_or]
    constructor
    · rintro ⟨hending, slots, hslots, _⟩
      exact ⟨hending, putAll_nil_iff.1 hslots, trivial⟩
    · rintro ⟨hending, hms, _⟩
      exact ⟨hending, (), putAll_nil_iff.2 hms, rfl⟩
  | cons f fields ih =>
    obtain ⟨x, xs⟩ := xs
    rw [List.flatMap_cons, List.nodup_append] at hkeys
    obtain ⟨_, hfields, hdisjoint⟩ := hkeys
    have hcongr : ∀ g ∈ fields, ∀ position,
        (object (ms.filter fun m => !m.isNamed f.keys) ending).fieldValues g.keys position =
          (object ms ending).fieldValues g.keys position := by
      intro g hg _
      refine valuesNamed_filter (fun key hf hkey => ?_) ms
      exact hdisjoint key hf key (List.mem_flatMap.2 ⟨g, hg, hkey⟩) rfl
    rw [ofMembers_cons_iff, ih hfields (position + 1), hold_congr hcongr, Values.Hold,
      List.flatMap_cons]
    simp only [List.mem_filter, Bool.not_eq_true', Entry.isNamed_append, Bool.or_eq_true]
    constructor
    · rintro ⟨hx, hending, hms, hxs⟩
      refine ⟨hending, fun m hm => ?_, hx, hxs⟩
      cases hnamed : m.isNamed f.keys with
      | true => exact Or.inl (Or.inl rfl)
      | false => exact (hms m ⟨hm, hnamed⟩).imp_left Or.inr
    · rintro ⟨hending, hms, hx, hxs⟩
      refine ⟨hx, hending, fun m ⟨hm, hnamed⟩ => ?_, hxs⟩
      obtain (hf | hrest) | hignorable := hms m hm
      · rw [hnamed] at hf
        cases hf
      · exact Or.inl hrest
      · exact Or.inr hignorable

/-! ### Arrays -/

theorem Absence.object?_of_array? {α : Type} {absence : Absence α} {x : α}
    (h : absence.array? = some x) : absence.object? = some x := by
  cases absence with
  | anywhere value => exact h
  | _ => cases h

theorem hold_of_absent {levels : Nat} {tooShort : Nat → Fault} {fields : List Field}
    {es : List (Spaced Node)} {ending : Ending} {position : Nat} (hlen : es.length ≤ position)
    {xs : Values fields} (h : Values.absent tooShort fields position = .ok xs) :
    Values.Hold levels (array es ending) fields position xs := by
  induction fields generalizing position with
  | nil => trivial
  | cons f fields ih =>
    obtain ⟨x, xs⟩ := xs
    rw [Values.absent] at h
    split at h
    · cases h
    · next value hvalue =>
      obtain ⟨xs', hxs, he⟩ := Outcome.map_eq_ok_iff.1 h
      obtain ⟨rfl, rfl⟩ := Prod.mk.inj he
      have hnone : (array es ending).fieldValues f.keys position = [] := by
        rw [Node.fieldValues, List.getElem?_eq_none hlen]
        rfl
      exact ⟨Or.inl ⟨hnone, Absence.object?_of_array? hvalue⟩, ih (by omega) hxs⟩

/-- The values that are read from an array come from its elements, or stand in for absent ones. -/
theorem hold_of_ofElements {levels : Nat} {tooShort : Nat → Fault} {fields : List Field}
    {all es : List (Spaced Node)} {ending : Ending} {position : Nat}
    (hall : all.drop position = es) {xs : Values fields}
    (h : Values.ofElements levels tooShort ending fields position es = .ok xs) :
    Values.Hold levels (array all ending) fields position xs := by
  induction fields generalizing position es with
  | nil => trivial
  | cons f fields ih =>
    cases es with
    | nil =>
      obtain ⟨u, _, h⟩ := Outcome.bind_eq_ok_iff.1 h
      exact hold_of_absent (List.drop_eq_nil_iff.1 hall) h
    | cons e es =>
      obtain ⟨x, xs⟩ := xs
      obtain ⟨x', hx, h⟩ := Outcome.bind_eq_ok_iff.1 h
      obtain ⟨xs', hxs, he⟩ := Outcome.bind_eq_ok_iff.1 h
      obtain ⟨rfl, rfl⟩ := Prod.mk.inj (Except.ok.inj he)
      have hget : all[position]? = some e := by
        have hhead := congrArg List.head? hall
        rwa [List.head?_drop] at hhead
      have hvalue : (array all ending).fieldValues f.keys position = [e.value] := by
        rw [Node.fieldValues, hget]
        rfl
      refine ⟨Or.inr ⟨e.value, hvalue, hx⟩, ih ?_ hxs⟩
      rw [← List.drop_drop, hall]
      rfl

/-- An array has an element for each field that it may not leave out. -/
theorem length_of_ofElements {levels : Nat} {tooShort : Nat → Fault} {fields : List Field}
    (hf : ∀ f ∈ fields, f.absence.array? = none) {es : List (Spaced Node)} {ending : Ending}
    {position : Nat} {xs : Values fields}
    (h : Values.ofElements levels tooShort ending fields position es = .ok xs) :
    es.length = fields.length := by
  induction fields generalizing position es with
  | nil =>
    cases es with
    | nil => rfl
    | cons e es => cases h
  | cons f fields ih =>
    obtain ⟨hfield, hfields⟩ := List.forall_mem_cons.1 hf
    cases es with
    | nil =>
      obtain ⟨_, _, h⟩ := Outcome.bind_eq_ok_iff.1 h
      rw [Values.absent, hfield] at h
      cases h
    | cons e es =>
      obtain ⟨_, _, h⟩ := Outcome.bind_eq_ok_iff.1 h
      obtain ⟨_, hxs, _⟩ := Outcome.bind_eq_ok_iff.1 h
      rw [List.length_cons, List.length_cons, ih hfields hxs]

/-- A record that is read from a tree is made of what the tree has for its fields. -/
theorem Record.hold_of_read {α : Type} {record : Record α}
    (hkeys : (record.fields.flatMap Field.keys).Nodup) {levels : Nat} {t : Node} {a : α}
    (h : record.read levels t = .ok a) :
    ∃ levels' xs, levels = levels' + 1 ∧ Values.Hold levels' t record.fields 0 xs ∧
      record.ofValues xs = a := by
  rw [Record.read.eq_def] at h
  split at h
  · cases h
  · cases h
  · obtain ⟨xs, hxs, ha⟩ := Outcome.map_eq_ok_iff.1 h
    exact ⟨_, xs, rfl, hold_of_ofElements rfl hxs, ha⟩
  · obtain ⟨xs, hxs, ha⟩ := Outcome.map_eq_ok_iff.1 h
    exact ⟨_, xs, rfl, ((Values.ofMembers_eq_ok_iff hkeys 0).1 hxs).2.2, ha⟩
  · cases h

/-- A record is read from an object exactly if the ending is there, the members of no field are
passed over, and what there is for each field reads as the value of the field. -/
theorem Record.read_object_iff {α : Type} {record : Record α}
    (hkeys : (record.fields.flatMap Field.keys).Nodup) {levels : Nat} {ms : List (Entry Node)}
    {ending : Ending} {a : α} :
    record.read (levels + 1) (object ms ending) = .ok a ↔ ending.isClosed = true ∧
      (∀ m ∈ ms, m.isNamed (record.fields.flatMap Field.keys) = true ∨ m.isIgnorable = true) ∧
      ∃ xs, Values.Hold levels (object ms ending) record.fields 0 xs ∧ record.ofValues xs = a := by
  rw [Record.read, Outcome.map_eq_ok_iff]
  constructor
  · rintro ⟨xs, hxs, ha⟩
    obtain ⟨hending, hms, hhold⟩ := (Values.ofMembers_eq_ok_iff hkeys 0).1 hxs
    exact ⟨hending, hms, xs, hhold, ha⟩
  · rintro ⟨hending, hms, xs, hhold, ha⟩
    exact ⟨xs, (Values.ofMembers_eq_ok_iff hkeys 0).2 ⟨hending, hms, hhold⟩, ha⟩

end Json

end MarketFeed
