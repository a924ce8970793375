import MarketFeed.Json.Value
import MarketFeed.Proofs.Json.Grammar
import MarketFeed.Proofs.Outcome

/-!
# Kept trees

A kept tree has in each place what is kept of the tree there (`Buffered.ofElements_eq`,
`Buffered.ofMembers_eq`).  One that is whole comes from a tree without a break
(`Buffered.isSound_of_isWhole`), and only from one that is whole a value is read
(`Buffered.isWhole_of_readWith`).
-/

namespace MarketFeed

namespace Json

open Node

namespace Buffered

/-! ### Induction -/

/-- A property of all kept trees, by induction: of an array or an object it may be assumed to hold
of the values in it. -/
theorem induct {P : Buffered → Prop} (null : P null) (bool : ∀ b, P (bool b))
    (number : ∀ n, P (number n)) (string : ∀ s, P (string s))
    (array : ∀ elements, (∀ v ∈ elements, P v) → P (array elements))
    (object : ∀ members, (∀ m ∈ members, P m.2) → P (object members))
    (broken : P broken) (b : Buffered) : P b := by
  refine @Buffered.rec P (fun vs => ∀ v ∈ vs, P v) (fun ms => ∀ m ∈ ms, P m.2) (fun m => P m.2)
    null bool number string array object broken ?_ ?_ ?_ ?_ (fun _ _ h => h) b
  · intro v hv
    cases hv
  · intro v vs hv hvs
    exact List.forall_mem_cons.2 ⟨hv, hvs⟩
  · intro m hm
    cases hm
  · intro m ms hm hms
    exact List.forall_mem_cons.2 ⟨hm, hms⟩

/-! ### What is kept -/

theorem ofElements_eq (levels : Nat) (es : List (Spaced Node)) :
    ofElements levels es = es.map fun e => ofNode levels e.value := by
  induction es with
  | nil => rw [ofElements, List.map_nil]
  | cons e es ih =>
    obtain ⟨before, value, after⟩ := e
    rw [ofElements, ofElement, ih, List.map_cons]

theorem ofMembers_eq (levels : Nat) (ms : List (Entry Node)) :
    ofMembers levels ms = ms.map (ofMember levels) := by
  induction ms with
  | nil => rw [ofMembers, List.map_nil]
  | cons m ms ih => rw [ofMembers, ih, List.map_cons]

theorem allWhole_eq (vs : List Buffered) : allWhole vs = vs.all isWhole := by
  induction vs with
  | nil => rw [allWhole, List.all_nil]
  | cons v vs ih => rw [allWhole, ih, List.all_cons]

theorem membersWhole_eq (ms : List (String × Buffered)) :
    membersWhole ms = ms.all fun m => m.2.isWhole := by
  induction ms with
  | nil => rw [membersWhole, List.all_nil]
  | cons m ms ih =>
    obtain ⟨key, v⟩ := m
    rw [membersWhole, memberWhole, ih, List.all_cons]

theorem ofMember_isWhole_iff {levels : Nat} {m : Entry Node} :
    (ofMember levels m).2.isWhole = true ↔ (StringPart.decode? m.key).isSome = true ∧
      m.colon.isSome = true ∧ (ofNode levels m.value).isWhole = true := by
  obtain ⟨before, key, colon, value, after⟩ := m
  rw [ofMember]
  cases StringPart.decode? key <;> cases colon <;> simp [isWhole]

theorem ofMember_eq_iff {levels : Nat} {m : Entry Node} {key : String} {b : Buffered}
    (hb : b.isWhole = true) : ofMember levels m = (key, b) ↔
      StringPart.decode? m.key = some key ∧ m.colon.isSome = true ∧ ofNode levels m.value = b := by
  have hne : broken ≠ b := by
    rintro rfl
    cases hb
  obtain ⟨before, body, colon, value, after⟩ := m
  rw [ofMember]
  cases StringPart.decode? body <;> cases colon <;> simp [hne]

theorem ofNode_eq_string_iff {levels : Nat} {t : Node} {s : String} :
    ofNode levels t = string s ↔ ∃ body, t = .string body ∧ StringPart.decode? body = some s := by
  constructor
  · intro h
    cases t with
    | null | bool | broken => cases h
    | number n =>
      rw [ofNode] at h
      cases hn : n.number? <;> rw [hn] at h <;> cases h
    | string body =>
      rw [ofNode] at h
      cases hbody : StringPart.decode? body <;> rw [hbody] at h <;> cases h
      exact ⟨body, rfl, hbody⟩
    | array es ending | object ms ending => cases levels <;> cases h
  · rintro ⟨body, rfl, hbody⟩
    rw [ofNode, hbody]
    rfl

theorem ofNode_eq_object_iff {levels : Nat} {t : Node} {members : List (String × Buffered)} :
    ofNode levels t = object members ↔ ∃ deeper ms ending, levels = deeper + 1 ∧
      t = .object ms ending ∧
      members = ms.map (ofMember deeper) ++ if ending.isClosed then [] else [("", broken)] := by
  constructor
  · intro h
    cases t with
    | null | bool | broken => cases h
    | number n =>
      rw [ofNode] at h
      cases hn : n.number? <;> rw [hn] at h <;> cases h
    | string body =>
      rw [ofNode] at h
      cases hbody : StringPart.decode? body <;> rw [hbody] at h <;> cases h
    | array es ending => cases levels <;> cases h
    | object ms ending =>
      cases levels with
      | zero => cases h
      | succ levels =>
        rw [ofNode, ofMembers_eq] at h
        exact ⟨levels, ms, ending, rfl, rfl, (object.inj h).symm⟩
  · rintro ⟨deeper, ms, ending, rfl, rfl, rfl⟩
    rw [ofNode, ofMembers_eq]

/-- An array is whole if it is closed and so is each of its elements. -/
theorem array_isWhole_iff {levels : Nat} {es : List (Spaced Node)} {ending : Ending} :
    (ofNode (levels + 1) (.array es ending)).isWhole = true ↔
      (∀ e ∈ es, (ofNode levels e.value).isWhole = true) ∧ ending.isClosed = true := by
  rw [ofNode, isWhole, allWhole_eq, ofElements_eq, List.all_append, Bool.and_eq_true,
    List.all_map, List.all_eq_true]
  refine and_congr Iff.rfl ?_
  cases ending.isClosed <;> simp [isWhole]

/-- An object is whole if it is closed, its keys are texts and each of its members is whole. -/
theorem object_isWhole_iff {levels : Nat} {ms : List (Entry Node)} {ending : Ending} :
    (ofNode (levels + 1) (.object ms ending)).isWhole = true ↔
      (∀ m ∈ ms, (StringPart.decode? m.key).isSome = true ∧ m.colon.isSome = true ∧
        (ofNode levels m.value).isWhole = true) ∧ ending.isClosed = true := by
  rw [ofNode, isWhole, membersWhole_eq, ofMembers_eq, List.all_append, Bool.and_eq_true,
    List.all_map, List.all_eq_true]
  refine and_congr (forall₂_congr fun m _ => ofMember_isWhole_iff) ?_
  cases ending.isClosed <;> simp [isWhole]

theorem ofNode?_eq_some_iff {levels : Nat} {t : Node} {b : Buffered} :
    ofNode? levels t = some b ↔ ofNode levels t = b ∧ b.isWhole = true := by
  rw [ofNode?]
  split_ifs with h
  · constructor
    · rintro ⟨⟩
      exact ⟨rfl, h⟩
    · rintro ⟨rfl, _⟩
      rfl
  · refine ⟨nofun, ?_⟩
    rintro ⟨rfl, hwhole⟩
    exact absurd hwhole h

theorem isSome_ofNode? {levels : Nat} {t : Node} :
    (ofNode? levels t).isSome = true ↔ (ofNode levels t).isWhole = true := by
  rw [ofNode?]
  split_ifs with h <;> simp [h]

/-- What is kept as a whole has no break. -/
theorem isSound_of_isWhole {levels : Nat} {t : Node} (h : (ofNode levels t).isWhole = true) :
    t.isSound = true := by
  induction t using Node.induct generalizing levels with
  | null | bool | number | string => rfl
  | array es ending ih =>
    cases levels with
    | zero => cases h
    | succ levels =>
      obtain ⟨hes, hending⟩ := array_isWhole_iff.1 h
      rw [isSound, elementsSound_eq, hending, Bool.and_true, List.all_eq_true]
      intro e he
      rw [elementSound_eq]
      exact ih e he (hes e he)
  | object ms ending ih =>
    cases levels with
    | zero => cases h
    | succ levels =>
      obtain ⟨hms, hending⟩ := object_isWhole_iff.1 h
      rw [isSound, membersSound_eq, hending, Bool.and_true, List.all_eq_true]
      intro m hm
      obtain ⟨_, hcolon, hvalue⟩ := hms m hm
      rw [memberSound_eq, hcolon, Bool.true_and]
      exact ih m hm hvalue
  | broken rest => cases h

/-! ### What is read -/

section

variable {spelled spelled' : String → Except Fault Value} {surplus surplus' : Nat → Fault}

theorem readElements_eq (vs : List Buffered) :
    readElements spelled surplus vs = vs.mapM (readWith spelled surplus) := by
  induction vs with
  | nil => rfl
  | cons v vs ih =>
    rw [readElements, ih, List.mapM_cons]

theorem readMembers_eq (ms : List (String × Buffered)) :
    readMembers spelled surplus ms =
      ms.mapM fun m => (readWith spelled surplus m.2).map (m.1, ·) := by
  induction ms with
  | nil => rfl
  | cons m ms ih =>
    obtain ⟨key, v⟩ := m
    rw [readMembers, ih, List.mapM_cons, readMember]

theorem raw?_eq_some_iff {ms : List (String × Buffered)} {v : Buffered} {others : Nat} :
    raw? ms = some (v, others) ↔ ∃ rest, ms = (rawKey, v) :: rest ∧ rest.length = others := by
  cases ms with
  | nil => simp [raw?]
  | cons m ms =>
    obtain ⟨key, w⟩ := m
    rw [raw?]
    split_ifs with h
    · subst h
      simp
    · simp [h]

theorem readText_eq_ok_iff {expected s : String} {b : Buffered} :
    b.readText expected = .ok s ↔ b = string s := by
  cases b <;> simp [readText]

theorem readRaw_eq_ok_iff {v : Buffered} {others : Nat} {x : Value} :
    readRaw spelled surplus v others = .ok x ↔
      ∃ s, v = string s ∧ others = 0 ∧ spelled s = .ok x := by
  rw [readRaw, Outcome.bind_eq_ok_iff]
  constructor
  · rintro ⟨s, hs, h⟩
    obtain ⟨y, hy, h⟩ := Outcome.bind_eq_ok_iff.1 h
    split_ifs at h with hothers
    cases h
    exact ⟨s, readText_eq_ok_iff.1 hs, hothers, hy⟩
  · rintro ⟨s, rfl, rfl, hs⟩
    exact ⟨s, rfl, Outcome.bind_eq_ok_iff.2 ⟨x, hs, rfl⟩⟩

/-- A value is read from an object of one member under the raw key, or from one that does not begin
with that. -/
theorem readWith_object_iff {ms : List (String × Buffered)} {x : Value} :
    readWith spelled surplus (object ms) = .ok x ↔
      (∃ s, ms = [(rawKey, string s)] ∧ spelled s = .ok x) ∨
      (raw? ms = none ∧ ∃ values, List.Forall₂
        (fun m value => ∃ v, readWith spelled surplus m.2 = .ok v ∧ (m.1, v) = value) ms values ∧
        x = .ofMembers values) := by
  rw [readWith]
  cases hraw : raw? ms with
  | some found =>
    obtain ⟨v, others⟩ := found
    obtain ⟨rest, rfl, rfl⟩ := raw?_eq_some_iff.1 hraw
    dsimp only
    rw [readRaw_eq_ok_iff]
    constructor
    · rintro ⟨s, rfl, hrest, hs⟩
      rw [List.length_eq_zero_iff.1 hrest]
      exact Or.inl ⟨s, rfl, hs⟩
    · rintro (⟨s, hms, hs⟩ | ⟨hnone, _⟩)
      · obtain ⟨hm, rfl⟩ := List.cons_eq_cons.1 hms
        exact ⟨s, (Prod.mk.inj hm).2, rfl, hs⟩
      · cases hnone
  | none =>
    dsimp only
    rw [readMembers_eq, Outcome.map_eq_ok_iff]
    simp only [Outcome.mapM_eq_ok_iff, Outcome.map_eq_ok_iff]
    constructor
    · rintro ⟨values, hvalues, rfl⟩
      exact Or.inr ⟨trivial, values, hvalues, rfl⟩
    · rintro (⟨s, rfl, _⟩ | ⟨_, values, hvalues, rfl⟩)
      · rw [raw?, if_pos rfl] at hraw
        cases hraw
      · exact ⟨values, hvalues, rfl⟩

theorem readWith_array_iff {vs : List Buffered} {x : Value} :
    readWith spelled surplus (array vs) = .ok x ↔ ∃ values,
      List.Forall₂ (fun v value => readWith spelled surplus v = .ok value) vs values ∧
        x = .array values := by
  rw [readWith, readElements_eq, Outcome.map_eq_ok_iff]
  simp only [Outcome.mapM_eq_ok_iff, eq_comm (a := Value.array _)]

/-- What a value is read from is whole. -/
theorem isWhole_of_readWith {b : Buffered} {x : Value} (h : readWith spelled surplus b = .ok x) :
    b.isWhole = true := by
  induction b using Buffered.induct generalizing x with
  | null | bool | number | string => rfl
  | array vs ih =>
    obtain ⟨values, hvalues, _⟩ := readWith_array_iff.1 h
    rw [isWhole, allWhole_eq, List.all_eq_true]
    intro v hv
    obtain ⟨_, _, hread⟩ := Outcome.exists_of_forall₂ hvalues hv
    exact ih v hv hread
  | object ms ih =>
    rw [isWhole, membersWhole_eq, List.all_eq_true]
    intro m hm
    obtain ⟨s, rfl, _⟩ | ⟨_, values, hvalues, _⟩ := readWith_object_iff.1 h
    · rw [List.mem_singleton.1 hm]
      rfl
    · obtain ⟨_, _, _, hread, _⟩ := Outcome.exists_of_forall₂ hvalues hm
      exact ih m hm hread
  | broken => cases h

/-- Which fault members behind the raw key are does not matter to what is read. -/
theorem readWith_surplus {b : Buffered} {x : Value} (h : readWith spelled surplus b = .ok x) :
    readWith spelled surplus' b = .ok x := by
  induction b using Buffered.induct generalizing x with
  | null | bool | number | string => exact h
  | array vs ih =>
    obtain ⟨values, hvalues, rfl⟩ := readWith_array_iff.1 h
    refine readWith_array_iff.2 ⟨values, ?_, rfl⟩
    exact Outcome.forall₂_imp_mem (fun v hv _ hread => ih v hv hread) hvalues
  | object ms ih =>
    obtain hraw | ⟨hnone, values, hvalues, rfl⟩ := readWith_object_iff.1 h
    · exact readWith_object_iff.2 (Or.inl hraw)
    · refine readWith_object_iff.2 (Or.inr ⟨hnone, values, ?_, rfl⟩)
      exact Outcome.forall₂_imp_mem (fun m hm _ ⟨v, hread, hv⟩ => ⟨v, ih m hm hread, hv⟩) hvalues
  | broken => cases h

/-- A text that stands in a kept tree. -/
inductive HasText (s : String) : Buffered → Prop
  | string : HasText s (string s)
  | element {vs : List Buffered} {v : Buffered} (hv : v ∈ vs) (h : HasText s v) :
    HasText s (array vs)
  | member {ms : List (String × Buffered)} {m : String × Buffered} (hm : m ∈ ms)
    (h : HasText s m.2) : HasText s (object ms)

/-- Only the values of the texts that stand in a tree matter to what is read. -/
theorem readWith_congr {b : Buffered} (h : ∀ s, b.HasText s → spelled s = spelled' s) :
    readWith spelled surplus b = readWith spelled' surplus b := by
  induction b using Buffered.induct with
  | null | bool | number | string | broken => rfl
  | array vs ih =>
    rw [readWith, readWith, readElements_eq, readElements_eq]
    exact congrArg _ (Outcome.mapM_congr fun v hv => ih v hv fun s hs => h s (.element hv hs))
  | object ms ih =>
    rw [readWith, readWith]
    split
    · next v others hraw =>
      obtain ⟨rest, rfl, _⟩ := raw?_eq_some_iff.1 hraw
      rw [readRaw, readRaw]
      cases v with
      | string s =>
        change (spelled s >>= _) = (spelled' s >>= _)
        rw [h s (.member List.mem_cons_self .string)]
      | _ => rfl
    · rw [readMembers_eq, readMembers_eq]
      refine congrArg _ (Outcome.mapM_congr fun m hm => ?_)
      rw [ih m hm fun s hs => h s (.member hm hs)]

end

end Buffered

end Json

end MarketFeed
