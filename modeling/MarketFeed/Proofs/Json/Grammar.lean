import MarketFeed.Json.Node
import MarketFeed.Proofs.Json.Numeral
import MarketFeed.Proofs.Json.StringPart

/-!
# Trees of the grammar

`Node.isSpelled` says that every token and every blank of a tree is where the grammar has it, up to
a break; `Node.isGrammatical` that there is no break either.  `Node.induct` is induction on trees
without the lists between a tree and its values.
-/

namespace MarketFeed

namespace Json

/-- Whether a gap is nothing but blanks. -/
def Gap.isBlank (gap : Gap) : Bool := gap.all Octet.isBlank

/-- Whether an ending is one of the grammar or cut short.  Behind a value its gap is empty, as the
blanks there belong to the value. -/
def Ending.isSpelled (afterValue : Bool) : Ending → Bool
  | closed gap => gap.isBlank && (!afterValue || gap.isEmpty)
  | cut _ => true

namespace Node

/-! ### Induction -/

/-- A property of all trees, by induction: of an array or an object it may be assumed to hold of the
values in it. -/
theorem induct {P : Node → Prop} (null : P null) (bool : ∀ b, P (bool b))
    (number : ∀ n, P (number n)) (string : ∀ body, P (string body))
    (array : ∀ elements ending, (∀ e ∈ elements, P e.value) → P (array elements ending))
    (object : ∀ members ending, (∀ m ∈ members, P m.value) → P (object members ending))
    (broken : ∀ rest, P (broken rest)) (t : Node) : P t := by
  refine @Node.rec P (fun es => ∀ e ∈ es, P e.value) (fun ms => ∀ m ∈ ms, P m.value)
    (fun e => P e.value) (fun m => P m.value) null bool number string array object broken
    ?_ ?_ ?_ ?_ (fun _ _ _ h => h) (fun _ _ _ _ _ h => h) t
  · intro e he
    cases he
  · intro e es he hes
    exact List.forall_mem_cons.2 ⟨he, hes⟩
  · intro m hm
    cases hm
  · intro m ms hm hms
    exact List.forall_mem_cons.2 ⟨hm, hms⟩

/-! ### Spelling -/

mutual

/-- Whether every token and every blank of a tree is one of the grammar, up to a break. -/
def isSpelled : Node → Bool
  | number n => n.isSpelled
  | string body => body.all StringPart.isSpelled
  | array elements ending => elementsSpelled elements && ending.isSpelled (!elements.isEmpty)
  | object members ending => membersSpelled members && ending.isSpelled (!members.isEmpty)
  | _ => true

/-- Whether every element is spelled. -/
def elementsSpelled : List (Spaced Node) → Bool
  | [] => true
  | e :: es => elementSpelled e && elementsSpelled es

/-- Whether an element is spelled. -/
def elementSpelled : Spaced Node → Bool
  | ⟨before, value, after⟩ => before.isBlank && value.isSpelled && after.isBlank

/-- Whether every member is spelled. -/
def membersSpelled : List (Entry Node) → Bool
  | [] => true
  | m :: ms => memberSpelled m && membersSpelled ms

/-- Whether a member is spelled.  Where the colon is missing the member breaks. -/
def memberSpelled : Entry Node → Bool
  | ⟨before, key, colon, value, after⟩ =>
    before.isBlank && key.all StringPart.isSpelled
      && (match colon with
          | none => !value.isSound
          | some (left, right) => left.isBlank && right.isBlank)
      && value.isSpelled && after.isBlank

end

theorem elementsSpelled_eq (es : List (Spaced Node)) :
    elementsSpelled es = es.all elementSpelled := by
  induction es with
  | nil => rw [elementsSpelled, List.all_nil]
  | cons e es ih => rw [elementsSpelled, ih, List.all_cons]

theorem membersSpelled_eq (ms : List (Entry Node)) :
    membersSpelled ms = ms.all memberSpelled := by
  induction ms with
  | nil => rw [membersSpelled, List.all_nil]
  | cons m ms ih => rw [membersSpelled, ih, List.all_cons]

theorem elementSound_eq (e : Spaced Node) : elementSound e = e.value.isSound := by
  obtain ⟨before, value, after⟩ := e
  rw [elementSound]

theorem memberSound_eq (m : Entry Node) : memberSound m = (m.colon.isSome && m.value.isSound) := by
  obtain ⟨before, key, colon, value, after⟩ := m
  rw [memberSound]

theorem elementsSound_eq (es : List (Spaced Node)) : elementsSound es = es.all elementSound := by
  induction es with
  | nil => rw [elementsSound, List.all_nil]
  | cons e es ih => rw [elementsSound, ih, List.all_cons]

theorem membersSound_eq (ms : List (Entry Node)) : membersSound ms = ms.all memberSound := by
  induction ms with
  | nil => rw [membersSound, List.all_nil]
  | cons m ms ih => rw [membersSound, ih, List.all_cons]

theorem isNull_iff {t : Node} : t.isNull = true ↔ t = null := by
  cases t <;> simp [isNull]

theorem not_isNull_iff {t : Node} : t.isNull = false ↔ t ≠ null := by
  rw [← Bool.not_eq_true, isNull_iff]

theorem isSound_of_isNull {t : Node} (h : t.isNull = true) : t.isSound = true := by
  rw [isNull_iff.1 h]
  rfl

/-! ### The grammar -/

/-- Whether a tree is one of the grammar. -/
def isGrammatical (t : Node) : Bool := t.isSpelled && t.isSound

/-- What the grammar asks of an element. -/
structure IsElement (e : Spaced Node) : Prop where
  before : e.before.isBlank = true
  value : e.value.isGrammatical = true
  after : e.after.isBlank = true

/-- What the grammar asks of a member. -/
structure IsMember (m : Entry Node) : Prop where
  before : m.before.isBlank = true
  key : m.key.all StringPart.isSpelled = true
  colon : ∃ left right, m.colon = some (left, right) ∧ left.isBlank = true ∧ right.isBlank = true
  value : m.value.isGrammatical = true
  after : m.after.isBlank = true

/-- What the grammar asks of the ending behind values or behind none. -/
def IsEnding (afterValue : Bool) (ending : Ending) : Prop :=
  ∃ gap, ending = .closed gap ∧ gap.isBlank = true ∧ (afterValue = true → gap = [])

theorem element_iff (e : Spaced Node) :
    (elementSpelled e = true ∧ elementSound e = true) ↔ IsElement e := by
  obtain ⟨before, value, after⟩ := e
  simp only [elementSpelled, elementSound, Bool.and_eq_true]
  constructor
  · rintro ⟨⟨⟨hb, hv⟩, ha⟩, hs⟩
    exact ⟨hb, Bool.and_eq_true_iff.2 ⟨hv, hs⟩, ha⟩
  · rintro ⟨hb, hv, ha⟩
    obtain ⟨hv, hs⟩ := Bool.and_eq_true_iff.1 hv
    exact ⟨⟨⟨hb, hv⟩, ha⟩, hs⟩

theorem member_iff (m : Entry Node) :
    (memberSpelled m = true ∧ memberSound m = true) ↔ IsMember m := by
  obtain ⟨before, key, colon, value, after⟩ := m
  simp only [memberSpelled, memberSound, Bool.and_eq_true]
  constructor
  · rintro ⟨⟨⟨⟨⟨hb, hk⟩, hc⟩, hv⟩, ha⟩, hcolon, hs⟩
    obtain ⟨⟨left, right⟩, rfl⟩ := Option.isSome_iff_exists.1 hcolon
    exact ⟨hb, hk, ⟨left, right, rfl, Bool.and_eq_true_iff.1 hc⟩,
      Bool.and_eq_true_iff.2 ⟨hv, hs⟩, ha⟩
  · rintro ⟨hb, hk, ⟨left, right, hcolon, hl, hr⟩, hv, ha⟩
    obtain rfl : colon = some (left, right) := hcolon
    obtain ⟨hv, hs⟩ := Bool.and_eq_true_iff.1 hv
    exact ⟨⟨⟨⟨⟨hb, hk⟩, Bool.and_eq_true_iff.2 ⟨hl, hr⟩⟩, hv⟩, ha⟩, rfl, hs⟩

theorem ending_iff (afterValue : Bool) (ending : Ending) :
    (ending.isSpelled afterValue = true ∧ ending.isClosed = true) ↔
      IsEnding afterValue ending := by
  cases ending with
  | cut rest =>
    constructor
    · rintro ⟨_, hc⟩
      cases hc
    · rintro ⟨gap, hgap, _⟩
      cases hgap
  | closed gap =>
    rw [Ending.isSpelled, Bool.and_eq_true]
    constructor
    · rintro ⟨⟨hb, hv⟩, _⟩
      refine ⟨gap, rfl, hb, fun ha => ?_⟩
      simpa [ha] using hv
    · rintro ⟨gap', hgap, hb, hv⟩
      cases hgap
      refine ⟨⟨hb, ?_⟩, rfl⟩
      cases afterValue with
      | false => rfl
      | true => simp [hv rfl]

/-- An array of the grammar. -/
theorem isGrammatical_array (es : List (Spaced Node)) (ending : Ending) :
    (array es ending).isGrammatical = true ↔
      (∀ e ∈ es, IsElement e) ∧ IsEnding (!es.isEmpty) ending := by
  rw [isGrammatical, isSpelled, isSound, elementsSpelled_eq, elementsSound_eq, ← ending_iff]
  simp only [Bool.and_eq_true, List.all_eq_true, ← element_iff]
  constructor
  · rintro ⟨⟨hp, he⟩, hs, hc⟩
    exact ⟨fun e h => ⟨hp e h, hs e h⟩, he, hc⟩
  · rintro ⟨h, he, hc⟩
    exact ⟨⟨fun e hm => (h e hm).1, he⟩, fun e hm => (h e hm).2, hc⟩

/-- An object of the grammar. -/
theorem isGrammatical_object (ms : List (Entry Node)) (ending : Ending) :
    (object ms ending).isGrammatical = true ↔
      (∀ m ∈ ms, IsMember m) ∧ IsEnding (!ms.isEmpty) ending := by
  rw [isGrammatical, isSpelled, isSound, membersSpelled_eq, membersSound_eq, ← ending_iff]
  simp only [Bool.and_eq_true, List.all_eq_true, ← member_iff]
  constructor
  · rintro ⟨⟨hp, he⟩, hs, hc⟩
    exact ⟨fun m h => ⟨hp m h, hs m h⟩, he, hc⟩
  · rintro ⟨h, he, hc⟩
    exact ⟨⟨fun m hm => (h m hm).1, he⟩, fun m hm => (h m hm).2, hc⟩

end Node

end Json

end MarketFeed
