import MarketFeed.Proofs.Json.Inline

/-!
# Blanks

`Node.bare` is a tree without its blanks.  Codecs that look at values only read the same from both
(`Codec.IgnoresBlanks`).
-/

namespace MarketFeed

namespace Json

/-- An ending without its blanks. -/
def Ending.bare : Ending → Ending
  | closed _ => closed []
  | cut rest => cut rest

namespace Node

mutual

/-- A tree without its blanks. -/
def bare : Node → Node
  | array elements ending => array (bareElements elements) ending.bare
  | object members ending => object (bareMembers members) ending.bare
  | t => t

/-- Elements without their blanks. -/
def bareElements : List (Spaced Node) → List (Spaced Node)
  | [] => []
  | e :: es => bareElement e :: bareElements es

/-- An element without its blanks. -/
def bareElement : Spaced Node → Spaced Node
  | ⟨_, value, _⟩ => ⟨[], bare value, []⟩

/-- Members without their blanks. -/
def bareMembers : List (Entry Node) → List (Entry Node)
  | [] => []
  | m :: ms => bareMember m :: bareMembers ms

/-- A member without its blanks. -/
def bareMember : Entry Node → Entry Node
  | ⟨_, key, colon, value, _⟩ => ⟨[], key, colon.map fun _ => ([], []), bare value, []⟩

end

theorem bareElements_eq (es : List (Spaced Node)) : bareElements es = es.map bareElement := by
  induction es with
  | nil => rw [bareElements, List.map_nil]
  | cons e es ih => rw [bareElements, ih, List.map_cons]

theorem bareMembers_eq (ms : List (Entry Node)) : bareMembers ms = ms.map bareMember := by
  induction ms with
  | nil => rw [bareMembers, List.map_nil]
  | cons m ms ih => rw [bareMembers, ih, List.map_cons]

@[simp] theorem bareElement_value (e : Spaced Node) : (bareElement e).value = e.value.bare := by
  obtain ⟨before, value, after⟩ := e
  rw [bareElement]

@[simp] theorem bareMember_key (m : Entry Node) : (bareMember m).key = m.key := by
  obtain ⟨before, key, colon, value, after⟩ := m
  rw [bareMember]

@[simp] theorem bareMember_value (m : Entry Node) : (bareMember m).value = m.value.bare := by
  obtain ⟨before, key, colon, value, after⟩ := m
  rw [bareMember]

@[simp] theorem bareMember_colon (m : Entry Node) :
    (bareMember m).colon.isSome = m.colon.isSome := by
  obtain ⟨before, key, colon, value, after⟩ := m
  rw [bareMember, Option.isSome_map]

/-- A value may be replaced by one that is the same without blanks. -/
theorem bare_replace {m : Entry Node} {v : Node} (h : m.value.bare = v.bare)
    (before after : List (Entry Node)) (ending : Ending) :
    (object (before ++ m :: after) ending).bare =
      (object (before ++ { m with value := v } :: after) ending).bare := by
  have hm : bareMember m = bareMember { m with value := v } := by
    obtain ⟨gap, key, colon, value, gap'⟩ := m
    rw [bareMember, bareMember, show value.bare = v.bare from h]
  rw [bare, bare, bareMembers_eq, bareMembers_eq, List.map_append, List.map_append, List.map_cons,
    List.map_cons, hm]

end Node

open Node

@[simp] theorem Ending.isClosed_bare (ending : Ending) :
    ending.bare.isClosed = ending.isClosed := by
  cases ending <;> rfl

@[simp] theorem Ending.check_bare (ending : Ending) : ending.bare.check = ending.check := by
  cases ending <;> rfl

/-! ### What a tree stands for -/

@[simp] theorem isSound_bare (t : Node) : t.bare.isSound = t.isSound := by
  induction t using Node.induct with
  | null | bool | number | string | broken => rfl
  | array es ending ih =>
    rw [Bool.eq_iff_iff, bare, isSound, isSound, elementsSound_eq, elementsSound_eq,
      bareElements_eq, List.all_map, Ending.isClosed_bare]
    simp only [Bool.and_eq_true, List.all_eq_true, Function.comp_apply, elementSound_eq,
      bareElement_value]
    exact and_congr_left fun _ => forall₂_congr fun e he => by rw [ih e he]
  | object ms ending ih =>
    rw [Bool.eq_iff_iff, bare, isSound, isSound, membersSound_eq, membersSound_eq,
      bareMembers_eq, List.all_map, Ending.isClosed_bare]
    simp only [Bool.and_eq_true, List.all_eq_true, Function.comp_apply, memberSound_eq,
      bareMember_value, bareMember_colon]
    exact and_congr_left fun _ => forall₂_congr fun m hm => by rw [ih m hm]

theorem ofMember_bare {levels : Nat} {m : Entry Node}
    (h : Buffered.ofNode levels m.value.bare = Buffered.ofNode levels m.value) :
    Buffered.ofMember levels (bareMember m) = Buffered.ofMember levels m := by
  obtain ⟨before, key, colon, value, after⟩ := m
  rw [bareMember, Buffered.ofMember, Buffered.ofMember, h, Option.isSome_map]

/-- A tree is kept as it is without its blanks. -/
@[simp] theorem kept_bare (levels : Nat) (t : Node) :
    Buffered.ofNode levels t.bare = Buffered.ofNode levels t := by
  induction t using Node.induct generalizing levels with
  | null | bool | number | string | broken => rfl
  | array es ending ih =>
    cases levels with
    | zero => rw [bare, Buffered.ofNode, Buffered.ofNode]
    | succ levels =>
      have hes : (es.map bareElement).map (fun e => Buffered.ofNode levels e.value) =
          es.map fun e => Buffered.ofNode levels e.value := by
        rw [List.map_map]
        refine List.map_congr_left fun e he => ?_
        rw [Function.comp_apply, bareElement_value, ih e he]
      rw [bare, Buffered.ofNode, Buffered.ofNode, Ending.isClosed_bare, bareElements_eq,
        Buffered.ofElements_eq, Buffered.ofElements_eq, hes]
  | object ms ending ih =>
    cases levels with
    | zero => rw [bare, Buffered.ofNode, Buffered.ofNode]
    | succ levels =>
      have hms : (ms.map bareMember).map (Buffered.ofMember levels) =
          ms.map (Buffered.ofMember levels) := by
        rw [List.map_map]
        exact List.map_congr_left fun m hm => ofMember_bare (ih m hm levels)
      rw [bare, Buffered.ofNode, Buffered.ofNode, Ending.isClosed_bare, bareMembers_eq,
        Buffered.ofMembers_eq, Buffered.ofMembers_eq, hms]

@[simp] theorem kept?_bare (levels : Nat) (t : Node) :
    Buffered.ofNode? levels t.bare = Buffered.ofNode? levels t := by
  rw [Buffered.ofNode?, Buffered.ofNode?, kept_bare]

/-- A tree stands for what it stands for without its blanks. -/
@[simp] theorem value_bare (levels : Nat) (t : Node) :
    Value.ofNode levels t.bare = Value.ofNode levels t := by
  rw [Value.ofNode, Value.ofNode, kept_bare]

/-! ### Codecs -/

/-- A codec reads a tree as it reads the tree without its blanks. -/
def Codec.IgnoresBlanks {α : Type} (codec : Codec α) : Prop :=
  ∀ levels t, codec.read levels t.bare = codec.read levels t

namespace Codec

@[simp] theorem readText_bare (expected : String) (t : Node) :
    readText expected t.bare = readText expected t := by
  cases t <;> simp [bare, readText, mismatch, Found.ofNode?]

theorem ignoresBlanks_text : text.IgnoresBlanks := fun _ t => readText_bare "a string" t

theorem ignoresBlanks_flag : flag.IgnoresBlanks := by
  intro levels t
  cases t <;> simp [bare, flag, mismatch, Found.ofNode?]

theorem ignoresBlanks_word : word.IgnoresBlanks := by
  intro levels t
  simp [word]

theorem ignoresBlanks_decimal : decimal.IgnoresBlanks := by
  intro levels t
  simp [decimal]

theorem ignoresBlanks_looseDecimal : looseDecimal.IgnoresBlanks := by
  intro levels t
  simp [looseDecimal]

theorem ignoresBlanks_list {α : Type} {codec : Codec α} (h : codec.IgnoresBlanks) :
    (list codec).IgnoresBlanks := by
  intro levels t
  cases t with
  | array es ending =>
    cases levels with
    | zero => rw [bare, list]
    | succ levels =>
      have hread : (fun e : Spaced Node => codec.read levels (bareElement e).value) =
          fun e => codec.read levels e.value :=
        funext fun e => by rw [bareElement_value, h levels]
      rw [bare, bareElements_eq]
      simp only [list, List.mapM_map, Ending.check_bare, Function.comp_def, hread]
  | _ => simp [bare, list, mismatch, Found.ofNode?]

theorem readUnit_bare (t : Node) : readUnit t.bare = readUnit t := by
  cases t <;> simp [bare, readUnit, mismatch, Found.ofNode?]

theorem ignoresBlanks_choice {α : Type} [BEq α] (table : List (String × α))
    (toText inspect : α → String) : (choice table toText inspect).IgnoresBlanks := by
  intro levels t
  change readChoice table levels t.bare = readChoice table levels t
  cases t with
  | object ms ending =>
    rw [bare, bareMembers_eq]
    cases levels with
    | zero => cases ms <;> cases ending <;> rfl
    | succ levels =>
      cases ms with
      | nil => cases ending <;> rfl
      | cons m ms =>
        rw [List.map_cons, readChoice, readChoice, bareMember_key, bareMember_value, readUnit_bare,
          Ending.check_bare, List.isEmpty_map]
  | _ => simp [bare, readChoice]

end Codec

/-! ### Records -/

section

variable {levels : Nat} {fields : List Field} (hf : ∀ f ∈ fields, f.codec.IgnoresBlanks)

include hf

theorem put_bare (key : String) (t : Node) (slots : Slots fields) :
    slots.put levels key t.bare = slots.put levels key t := by
  induction fields with
  | nil =>
    obtain ⟨⟩ := slots
    simp [Slots.put]
  | cons f fields ih =>
    obtain ⟨hfield, hfields⟩ := List.forall_mem_cons.1 hf
    obtain ⟨slot, slots⟩ := slots
    rw [Slots.put, Slots.put, ih hfields, hfield levels t]

theorem putAll_bare (ms : List (Entry Node)) (slots : Slots fields) :
    slots.putAll levels fields (ms.map bareMember) = slots.putAll levels fields ms := by
  induction ms generalizing slots with
  | nil => rfl
  | cons m ms ih =>
    simp only [List.map_cons, Slots.putAll, bareMember_key, bareMember_value, put_bare hf, ih]

theorem ofElements_bare (tooShort : Nat → Fault) (ending : Ending) (position : Nat)
    (es : List (Spaced Node)) :
    Values.ofElements levels tooShort ending.bare fields position (es.map bareElement) =
      Values.ofElements levels tooShort ending fields position es := by
  induction fields generalizing position es with
  | nil => cases es <;> simp [Values.ofElements]
  | cons f fields ih =>
    obtain ⟨hfield, hfields⟩ := List.forall_mem_cons.1 hf
    cases es with
    | nil => simp [Values.ofElements]
    | cons e es =>
      simp only [List.map_cons, Values.ofElements, bareElement_value, hfield levels, ih hfields]
      rfl

end

theorem Record.ignoresBlanks {α : Type} {record : Record α}
    (hf : ∀ f ∈ record.fields, f.codec.IgnoresBlanks) : record.codec.IgnoresBlanks := by
  intro levels t
  change record.read levels t.bare = record.read levels t
  cases t with
  | array es ending =>
    cases levels with
    | zero => rw [bare, Record.read, Record.read]
    | succ levels =>
      rw [bare, bareElements_eq, Record.read, Record.read, ofElements_bare hf]
  | object ms ending =>
    cases levels with
    | zero => rw [bare, Record.read, Record.read]
    | succ levels =>
      rw [bare, bareMembers_eq, Record.read, Record.read, Values.ofMembers, Values.ofMembers,
        putAll_bare hf, Ending.check_bare]
  | _ => rfl

end Json

end MarketFeed
