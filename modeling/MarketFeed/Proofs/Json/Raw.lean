import MarketFeed.Proofs.Json.Reading

/-!
# Trees that stand for others

An object with the raw key alone wraps a text (`Node.Wraps`), and stands for the value that is
spelled there (`Value.ofNode_wraps`); the bound of `Value.spelledWithin` is never reached
(`Value.spelled_eq`).  `Node.StandsFor` says which tree is at the end of all wrappings, and
`Value.ofNode_eq_leaf_iff` that this tree is the one whose value is read.
-/

namespace MarketFeed

namespace Json

/-! ### Texts in a tree -/

namespace Buffered

/-- A text in a kept array stands in what is kept of an element. -/
theorem hasText_array {levels : Nat} {es : List (Spaced Node)} {ending : Ending} {s : String}
    (h : (ofNode (levels + 1) (.array es ending)).HasText s) :
    ∃ e ∈ es, (ofNode levels e.value).HasText s := by
  rw [ofNode, ofElements_eq] at h
  cases h with
  | element hv h =>
    obtain hv | hv := List.mem_append.1 hv
    · obtain ⟨e, he, rfl⟩ := List.mem_map.1 hv
      exact ⟨e, he, h⟩
    · split at hv
      · cases hv
      · rw [List.mem_singleton.1 hv] at h
        cases h

/-- A text in what is kept of a member stands in what is kept of its value. -/
theorem hasText_member {levels : Nat} {m : Entry Node} {s : String}
    (h : (ofMember levels m).2.HasText s) : (ofNode levels m.value).HasText s := by
  obtain ⟨before, key, colon, value, after⟩ := m
  rw [ofMember] at h
  split at h
  · cases h
  · dsimp only at h
    split at h
    · exact h
    · cases h

/-- A text in a kept object stands in what is kept of the value of a member. -/
theorem hasText_object {levels : Nat} {ms : List (Entry Node)} {ending : Ending} {s : String}
    (h : (ofNode (levels + 1) (.object ms ending)).HasText s) :
    ∃ m ∈ ms, (ofNode levels m.value).HasText s := by
  rw [ofNode, ofMembers_eq] at h
  cases h with
  | member hm h =>
    obtain hm | hm := List.mem_append.1 hm
    · obtain ⟨m, hmem, rfl⟩ := List.mem_map.1 hm
      exact ⟨m, hmem, hasText_member h⟩
    · split at hm
      · cases hm
      · rw [List.mem_singleton.1 hm] at h
        cases h

/-- A text in a kept tree is shorter than the tree. -/
theorem length_lt_of_hasText {levels : Nat} {t : Node} {s : String}
    (h : (ofNode levels t).HasText s) : (octets s).length < t.text.length := by
  induction t using Node.induct generalizing levels with
  | null | bool | broken => cases h
  | number n =>
    rw [ofNode] at h
    cases hn : n.number? <;> rw [hn] at h <;> cases h
  | string body =>
    rw [ofNode] at h
    cases hbody : StringPart.decode? body <;> rw [hbody] at h <;> cases h
    exact StringPart.length_decode_lt hbody
  | array es ending ih =>
    cases levels with
    | zero => cases h
    | succ levels =>
      obtain ⟨e, he, h⟩ := hasText_array h
      exact (ih e he h).trans_le (Node.infix_array he ending).length_le
  | object ms ending ih =>
    cases levels with
    | zero => cases h
    | succ levels =>
      obtain ⟨m, hm, h⟩ := hasText_object h
      have hinfix := (Node.infix_value m).trans (Node.infix_object hm ending)
      exact (ih m hm h).trans_le hinfix.length_le

end Buffered

/-! ### Spelled values -/

/-- Only what is read of the tree that is scanned matters to what is decoded. -/
theorem decodeWith_congr {α : Type} {read read' : Node → Except Fault α} {s : List UInt8}
    (h : ∀ t : Node, t.text.length ≤ s.length → read t = read' t) :
    decodeWith read s = decodeWith read' s := by
  rcases hscan : Node.scan (dropGap s) with ⟨t, rest⟩
  have hlength : t.text.length ≤ s.length := by
    have htext := congrArg List.length (Node.spelled_of_scan hscan).2
    have hdrop := congrArg List.length (takeGap_append_dropGap s)
    rw [List.length_append] at htext hdrop
    omega
  rw [decodeWith, decodeWith, hscan]
  dsimp only
  rw [h t hlength]

namespace Value

/-- The value that a text spells does not depend on a bound that is longer than the text. -/
theorem spelledWithin_eq {bound bound' : Nat} {s : String} (h : (octets s).length < bound)
    (h' : (octets s).length < bound') : spelledWithin bound s = spelledWithin bound' s := by
  induction bound generalizing bound' s with
  | zero => omega
  | succ bound ih =>
    obtain ⟨bound', rfl⟩ : ∃ b, bound' = b + 1 := ⟨bound' - 1, by omega⟩
    rw [spelledWithin, spelledWithin]
    refine decodeWith_congr fun t ht => Buffered.readWith_congr fun s' hs' => ?_
    have hlt := Buffered.length_lt_of_hasText hs'
    exact ih (by omega) (by omega)

/-- The value that a text spells is that of the tree which it spells. -/
theorem spelled_eq (s : String) : spelled s = decodeWith (ofNode allLevels) (octets s) := by
  rw [spelled, spelledWithin]
  refine decodeWith_congr fun t ht => Buffered.readWith_congr fun s' hs' => ?_
  have hlt := Buffered.length_lt_of_hasText hs'
  exact spelledWithin_eq (by omega) (by omega)

theorem spelled_eq_ok_iff {s : String} {v : Value} :
    spelled s = .ok v ↔ ∃ t, Spells (octets s) t ∧ ofNode allLevels t = .ok v := by
  rw [spelled_eq]
  exact decodeWith_eq_ok_iff fun _ _ _ h => Codec.isSound_of_value h

end Value

/-! ### Wrapped texts -/

namespace Node

/-- An object whose one member has the raw key and a text. -/
inductive Wraps : Node → String → Prop
  | intro {key body : List StringPart} {s : String} (before after gap : Gap) (colon : Gap × Gap)
    (hkey : StringPart.decode? key = some rawKey) (hbody : StringPart.decode? body = some s) :
    Wraps (object [⟨before, key, some colon, string body, after⟩] (.closed gap)) s

/-- The object that wraps a text, without blanks. -/
def wrap (s : String) : Node := ofMembers [member rawKey (ofString s)]

theorem Wraps.unique {t : Node} {s s' : String} (h : t.Wraps s) (h' : t.Wraps s') : s = s' := by
  cases h with
  | intro before after gap colon hkey hbody =>
    cases h' with
    | intro _ _ _ _ _ hbody' => exact Option.some.inj (hbody.symm.trans hbody')

theorem Wraps.kept {t : Node} {s : String} (h : t.Wraps s) (levels : Nat) :
    Buffered.ofNode (levels + 1) t = .object [(rawKey, .string s)] := by
  cases h with
  | intro before after gap colon hkey hbody =>
    rw [Buffered.ofNode, Buffered.ofMembers_eq, List.map_singleton, Buffered.ofMember, hkey]
    dsimp only
    rw [Option.isSome_some, if_pos rfl, Buffered.ofNode, hbody]
    rfl

/-- A wrapped text is shorter than the wrapping. -/
theorem Wraps.length_lt {t : Node} {s : String} (h : t.Wraps s) :
    (octets s).length < t.text.length := by
  have hkept := h.kept 0
  have htext : (Buffered.ofNode 1 t).HasText s := by
    rw [hkept]
    exact .member List.mem_cons_self .string
  exact Buffered.length_lt_of_hasText htext

/-- What is kept as an object of the raw key and a text wraps that text. -/
theorem wraps_of_kept {levels : Nat} {t : Node} {s : String}
    (h : Buffered.ofNode levels t = .object [(rawKey, .string s)]) :
    ∃ deeper, levels = deeper + 1 ∧ t.Wraps s := by
  obtain ⟨deeper, ms, ending, rfl, rfl, hmembers⟩ := Buffered.ofNode_eq_object_iff.1 h
  refine ⟨deeper, rfl, ?_⟩
  cases ms with
  | nil =>
    cases ending with
    | closed gap => cases hmembers
    | cut rest => cases congrArg Prod.snd (List.cons_eq_cons.1 hmembers).1
  | cons m ms =>
    obtain ⟨hm, hrest⟩ := List.cons_eq_cons.1 hmembers
    obtain ⟨hms, hending⟩ := List.append_eq_nil_iff.1 hrest.symm
    obtain rfl := List.map_eq_nil_iff.1 hms
    obtain ⟨before, key, colon, value, after⟩ := m
    obtain ⟨hkey, hcolon, hvalue⟩ := (Buffered.ofMember_eq_iff rfl).1 hm.symm
    obtain ⟨body, rfl, hbody⟩ := Buffered.ofNode_eq_string_iff.1 hvalue
    cases colon with
    | none => cases hcolon
    | some colon =>
      cases ending with
      | cut rest => cases hending
      | closed gap => exact .intro before after gap colon hkey hbody

/-- Which tree a tree stands for: itself, unless it wraps a text, and then whatever the tree that
the text spells stands for. -/
inductive StandsFor : Nat → Node → Node → Prop
  | self {levels : Nat} {t : Node} (h : ∀ s, ¬t.Wraps s) : StandsFor levels t t
  | wrapped {levels : Nat} {t u v : Node} {s : String} (h : t.Wraps s) (hs : Spells (octets s) u)
    (hv : StandsFor allLevels u v) : StandsFor (levels + 1) t v

theorem StandsFor.unique {levels levels' : Nat} {t u u' : Node} (h : t.StandsFor levels u)
    (h' : t.StandsFor levels' u') : u = u' := by
  induction h generalizing levels' u' with
  | self hself =>
    cases h' with
    | self => rfl
    | wrapped hwraps => exact absurd hwraps (hself _)
  | wrapped hwraps hspells _ ih =>
    cases h' with
    | self hself => exact absurd hwraps (hself _)
    | wrapped hwraps' hspells' hv' =>
      obtain rfl := hwraps.unique hwraps'
      obtain rfl := spells_unique hspells hspells'
      exact ih hv'

/-- Where a tree stands for another, it does so wherever one more level is left. -/
theorem StandsFor.succ {levels : Nat} {t u : Node} (h : t.StandsFor levels u) (levels' : Nat) :
    t.StandsFor (levels' + 1) u := by
  cases h with
  | self hself => exact .self hself
  | wrapped hwraps hspells hv => exact .wrapped hwraps hspells hv

/-- A tree that wraps no text stands for itself. -/
theorem standsFor_iff {levels : Nat} {t u : Node} (h : ∀ s, ¬t.Wraps s) :
    t.StandsFor levels u ↔ u = t := by
  constructor
  · rintro (_ | ⟨hwraps⟩)
    · rfl
    · exact absurd hwraps (h _)
  · rintro rfl
    exact .self h

theorem null_not_wraps (s : String) : ¬null.Wraps s := nofun

/-- The value of a tree that is no array and no object. -/
def leaf? : Node → Option Value
  | null => some .null
  | bool b => some (.bool b)
  | number n => n.number?.map .number
  | string body => (StringPart.decode? body).map .string
  | _ => none

theorem leaf?_number {n : Numeral} {x : Number} (h : n.number? = some x) :
    (number n).leaf? = some (.number x) := by
  rw [leaf?, h]
  rfl

theorem leaf?_string {body : List StringPart} {s : String} (h : StringPart.decode? body = some s) :
    (string body).leaf? = some (.string s) := by
  rw [leaf?, h]
  rfl

end Node

/-- Whether a value is no array and no object. -/
def Value.isLeaf : Value → Bool
  | array _ => false
  | object _ => false
  | _ => true

namespace Value

open Node

theorem ofNode_of_leaf? {t : Node} {v : Value} (h : t.leaf? = some v) (levels : Nat) :
    ofNode levels t = .ok v := by
  cases t with
  | null | bool =>
    cases h
    rfl
  | number n =>
    obtain ⟨x, hx, rfl⟩ := Option.map_eq_some_iff.1 h
    rw [ofNode, Buffered.ofNode, hx]
    rfl
  | string body =>
    obtain ⟨s, hs, rfl⟩ := Option.map_eq_some_iff.1 h
    rw [ofNode, Buffered.ofNode, hs]
    rfl
  | array | object | broken => cases h

theorem bind_ofNode_of_leaf? {α : Type} (f : Value → Except Fault α) {t : Node} {v : Value}
    (h : t.leaf? = some v) (levels : Nat) : (ofNode levels t >>= f) = f v := by
  rw [ofNode_of_leaf? h]
  rfl

/-- A tree that wraps a text stands for the value that is spelled there. -/
theorem ofNode_wraps {t : Node} {s : String} (h : t.Wraps s) (levels : Nat) :
    ofNode (levels + 1) t = spelled s := by
  rw [ofNode, h.kept, Buffered.readWith]
  change (spelled s >>= pure) = spelled s
  exact bind_pure _

/-- A value that is no array and no object is read from a tree with that value, or through a text
that is wrapped. -/
theorem leaf?_or_wraps {levels : Nat} {t : Node} {v : Value} (hv : v.isLeaf = true)
    (h : ofNode levels t = .ok v) : t.leaf? = some v ∨
      ∃ deeper s, levels = deeper + 1 ∧ t.Wraps s ∧ spelled s = .ok v := by
  cases t with
  | null | bool =>
    cases h
    exact Or.inl rfl
  | number n =>
    rw [ofNode, Buffered.ofNode] at h
    cases hn : n.number? <;> rw [hn] at h <;> cases h
    exact Or.inl (leaf?_number hn)
  | string body =>
    rw [ofNode, Buffered.ofNode] at h
    cases hbody : StringPart.decode? body <;> rw [hbody] at h <;> cases h
    exact Or.inl (leaf?_string hbody)
  | array es ending =>
    cases levels with
    | zero => cases h
    | succ levels =>
      rw [ofNode, Buffered.ofNode] at h
      obtain ⟨values, _, rfl⟩ := Buffered.readWith_array_iff.1 h
      cases hv
  | object ms ending =>
    cases levels with
    | zero => cases h
    | succ levels =>
      rw [ofNode, Buffered.ofNode] at h
      obtain ⟨s, hms, hs⟩ | ⟨_, values, _, rfl⟩ := Buffered.readWith_object_iff.1 h
      · have hkept : Buffered.ofNode (levels + 1) (.object ms ending) =
            .object [(rawKey, .string s)] := by rw [Buffered.ofNode, hms]
        obtain ⟨deeper, hlevels, hwraps⟩ := wraps_of_kept hkept
        exact Or.inr ⟨deeper, s, hlevels, hwraps, hs⟩
      · cases hv
  | broken rest => cases h

/-- A value that is no array and no object is read where the tree that the given one stands for has
that value. -/
theorem ofNode_eq_leaf_iff {levels : Nat} {t : Node} {v : Value} (hv : v.isLeaf = true) :
    ofNode levels t = .ok v ↔ ∃ u, t.StandsFor levels u ∧ u.leaf? = some v := by
  constructor
  · -- A wrapped text is shorter than its wrapping, so the induction is on the length.
    intro h
    induction hlength : t.text.length using Nat.strongRecOn generalizing levels t with
    | ind n ih =>
      obtain hleaf | ⟨deeper, s, rfl, hwraps, hs⟩ := leaf?_or_wraps hv h
      · refine ⟨t, .self ?_, hleaf⟩
        rintro s ⟨⟩
        cases hleaf
      · obtain ⟨u, hspells, hu⟩ := spelled_eq_ok_iff.1 hs
        have hshorter : u.text.length < n := by
          obtain ⟨before, after, _, _, _, hoctets⟩ := id hspells
          have hlt := hwraps.length_lt
          rw [hoctets, List.length_append, List.length_append] at hlt
          omega
        obtain ⟨w, hw, hleaf⟩ := ih _ hshorter hu rfl
        exact ⟨w, .wrapped hwraps hspells hw, hleaf⟩
  · rintro ⟨u, hstands, hleaf⟩
    induction hstands with
    | self => exact ofNode_of_leaf? hleaf _
    | wrapped hwraps hspells _ ih =>
      rw [ofNode_wraps hwraps]
      exact spelled_eq_ok_iff.2 ⟨_, hspells, ih hleaf⟩

/-- What is made of values that are no arrays and no objects is made of the value of the tree that
the given one stands for. -/
theorem bind_ofNode_iff {α : Type} {f : Value → Except Fault α}
    (hf : ∀ v x, f v = .ok x → v.isLeaf = true) {levels : Nat} {t : Node} {x : α} :
    (ofNode levels t >>= f) = .ok x ↔
      ∃ u, t.StandsFor levels u ∧ ∃ v, u.leaf? = some v ∧ f v = .ok x := by
  rw [Outcome.bind_eq_ok_iff]
  constructor
  · rintro ⟨v, hv, hx⟩
    obtain ⟨u, hu, hleaf⟩ := (ofNode_eq_leaf_iff (hf v x hx)).1 hv
    exact ⟨u, hu, v, hleaf, hx⟩
  · rintro ⟨u, hu, v, hleaf, hx⟩
    exact ⟨v, (ofNode_eq_leaf_iff (hf v x hx)).2 ⟨u, hu, hleaf⟩, hx⟩

/-- What is made of the value of a wrapped text is made of the value of the wrapping. -/
theorem bind_ofNode_wraps_iff {α : Type} (f : Value → Except Fault α) {t : Node} {s : String}
    (h : t.Wraps s) (levels : Nat) {x : α} :
    (ofNode (levels + 1) t >>= f) = .ok x ↔
      ∃ u, Spells (octets s) u ∧ (ofNode allLevels u >>= f) = .ok x := by
  simp only [ofNode_wraps h, Outcome.bind_eq_ok_iff, spelled_eq_ok_iff]
  constructor
  · rintro ⟨v, ⟨u, hu, hv⟩, hx⟩
    exact ⟨u, hu, v, hv, hx⟩
  · rintro ⟨u, hu, v, hv, hx⟩
    exact ⟨v, ⟨u, hu, hv⟩, hx⟩

theorem ofNode_eq_null_iff {levels : Nat} {t : Node} :
    ofNode levels t = .ok .null ↔ t.StandsFor levels .null := by
  have hleaf (u : Node) : u.leaf? = some Value.null ↔ u = .null := by
    cases u <;> simp [leaf?]
  simp only [ofNode_eq_leaf_iff (v := .null) rfl, hleaf, exists_eq_right]

end Value

end Json

end MarketFeed
