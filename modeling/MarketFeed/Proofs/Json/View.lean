import MarketFeed.Proofs.Json.Fields

/-!
# Looking into trees

What a tree has at a place: the text of a string (`Node.string?`), the elements of an array
(`Node.list?`), the one value for a field of a record (`Node.field?`) and that of the one member
with a key (`Node.get?`).
-/

namespace MarketFeed

namespace Json

namespace Node

/-- The text of a string. -/
def string? : Node → Option String
  | string body => StringPart.decode? body
  | _ => none

/-- The elements of an array. -/
def list? : Node → Option (List Node)
  | array es _ => some (es.map (·.value))
  | _ => none

/-- The one value for a field with the given keys and position. -/
def field? (keys : List String) (position : Nat) (t : Node) : Option Node :=
  match t.fieldValues keys position with
  | [v] => some v
  | _ => none

/-- The value of the one member with a key. -/
def get? (key : String) : Node → Option Node
  | object ms _ =>
    match valuesNamed [key] ms with
    | [v] => some v
    | _ => none
  | _ => none

/-- The name that a tree is: the text of a string, or the key of an object's one member, whose value
is null. -/
def name? : Node → Option String
  | string body => StringPart.decode? body
  | object [⟨_, key, _, .null, _⟩] _ => StringPart.decode? key
  | _ => none

/-- Values go with the elements of an array, one with each and in their order. -/
def Lists {α : Type} (r : Node → α → Prop) (t : Node) (xs : List α) : Prop :=
  ∃ vs, t.list? = some vs ∧ List.Forall₂ r vs xs

/-! ### Written trees -/

@[simp] theorem string?_ofString (s : String) : (ofString s).string? = some s :=
  StringPart.decode?_encode s

@[simp] theorem list?_ofList (values : List Node) : (ofList values).list? = some values := by
  rw [ofList, list?, List.map_map]
  exact congrArg some (List.map_id values)

theorem valuesNamed_member (key : String) (pairs : List (String × Node)) :
    valuesNamed [key] (pairs.map fun (k, v) => member k v) =
      (pairs.filter fun (k, _) => k == key).map (·.2) := by
  have hnamed (p : String × Node) : (member p.1 p.2).isNamed [key] = (p.1 == key) := by
    have hkey : StringPart.decode? (member p.1 p.2).key = some p.1 := StringPart.decode?_encode p.1
    rw [Entry.isNamed_of_decode? hkey, List.contains_cons, List.contains_nil, Bool.or_false]
  rw [valuesNamed, List.filter_map, List.map_map]
  exact congrArg (List.map Prod.snd) (List.filter_congr fun p _ => hnamed p)

/-- What is written for a key is found there. -/
theorem get?_ofPairs (key : String) (pairs : List (String × Node)) :
    (ofPairs pairs).get? key =
      match (pairs.filter fun (k, _) => k == key).map (·.2) with
      | [v] => some v
      | _ => none := by
  rw [ofPairs, ofMembers, get?, valuesNamed_member]

/-! ### Trees that are read -/

theorem exists_of_string? {t : Node} {s : String} (h : t.string? = some s) :
    ∃ body, t = string body ∧ StringPart.decode? body = some s := by
  cases t with
  | string body => exact ⟨body, rfl, h⟩
  | _ => cases h

theorem isGrammatical_of_field? {t v : Node} {keys : List String} {position : Nat}
    (ht : t.isGrammatical = true) (h : t.field? keys position = some v) :
    v.isGrammatical = true := by
  unfold field? at h
  split at h
  · next w hw =>
    obtain rfl := Option.some.inj h
    have hmem : w ∈ t.fieldValues keys position := hw ▸ List.mem_singleton_self w
    cases t with
    | object ms ending =>
      obtain ⟨m, hm, rfl⟩ := List.mem_map.1 hmem
      exact (((isGrammatical_object ms ending).1 ht).1 m (List.mem_of_mem_filter hm)).value
    | array es ending =>
      obtain ⟨e, he, rfl⟩ := List.mem_map.1 hmem
      rw [Option.mem_toList] at he
      exact (((isGrammatical_array es ending).1 ht).1 e (List.mem_of_getElem? he)).value
    | _ => cases hmem
  · cases h

theorem field?_of_required {α : Type} {levels : Nat} {label key : String} {codec : Codec α}
    {t : Node} {position : Nat} {x : α}
    (h : (Field.required label key codec).Holds levels (t.fieldValues [key] position) x) :
    ∃ v, t.field? [key] position = some v ∧ codec.read levels v = .ok x := by
  obtain ⟨_, hx⟩ | ⟨v, hv, hread⟩ := h
  · cases hx
  · refine ⟨v, ?_, hread⟩
    rw [field?, hv]

end Node

namespace Codec

open Node

/-- A value is read from a tree that may have the given number of levels. -/
def Reads {α : Type} (codec : Codec α) (levels : Nat) (t : Node) (x : α) : Prop :=
  codec.read levels t = .ok x

/-- An array has an element from which no value is read. -/
def Misreads {α : Type} (codec : Codec α) (levels : Nat) (t : Node) : Prop :=
  ∃ vs, t.list? = some vs ∧ ∃ v ∈ vs, ∀ x, ¬codec.Reads levels v x

/-- A list is read from the elements of an array, one value from each. -/
theorem list_read {α : Type} {codec : Codec α} {levels : Nat} {t : Node} {xs : List α}
    (h : (list codec).read levels t = .ok xs) :
    ∃ levels', levels = levels' + 1 ∧ t.Lists (codec.Reads levels') xs := by
  cases t with
  | array es ending =>
    cases levels with
    | zero => cases h
    | succ levels =>
      obtain ⟨values, hvalues, h⟩ := Outcome.bind_eq_ok_iff.1 h
      obtain ⟨_, _, h⟩ := Outcome.bind_eq_ok_iff.1 h
      obtain rfl := Except.ok.inj h
      refine ⟨levels, rfl, es.map (·.value), rfl, ?_⟩
      rw [List.forall₂_map_left_iff]
      exact Outcome.mapM_eq_ok_iff.1 hvalues
  | _ => cases h

theorem lists_of_read {α : Type} {codec : Codec α} (levels : Nat) {t : Node} {xs : List α}
    (h : (list codec).read (levels + 1) t = .ok xs) : t.Lists (codec.Reads levels) xs := by
  obtain ⟨levels', hlevels, hlists⟩ := list_read h
  obtain rfl := Nat.succ.inj hlevels
  exact hlists

/-- Where every element is read there is none from which no value is. -/
theorem not_misreads {α : Type} {codec : Codec α} {levels : Nat} {t : Node} {xs : List α}
    (h : t.Lists (codec.Reads levels) xs) : ¬codec.Misreads levels t := by
  rintro ⟨vs, hvs, v, hv, hbad⟩
  obtain ⟨values, hvalues, hread⟩ := h
  obtain rfl := Option.some.inj (hvs.symm.trans hvalues)
  obtain ⟨x, _, hx⟩ := Outcome.exists_of_forall₂ hread hv
  exact hbad x hx

theorem readText_iff {expected : String} {t : Node} {s : String} :
    readText expected t = .ok s ↔ t.string? = some s := by
  refine readText_eq_ok_iff.trans ⟨?_, exists_of_string?⟩
  rintro ⟨body, rfl, hs⟩
  exact hs

theorem decimal_read_iff {levels : Nat} {t : Node} {d : Decimal} :
    decimal.read levels t = .ok d ↔ ∃ s, t.string? = some s ∧ Decimal.read s = .ok d := by
  constructor
  · intro h
    obtain ⟨s, hs, hd⟩ := Outcome.bind_eq_ok_iff.1 h
    refine ⟨s, readText_iff.1 hs, ?_⟩
    cases hread : Decimal.read s with
    | ok d' =>
      rw [hread] at hd
      cases hd
      rfl
    | error fault =>
      rw [hread] at hd
      cases hd
  · rintro ⟨s, hs, hd⟩
    refine Outcome.bind_eq_ok_iff.2 ⟨s, readText_iff.2 hs, ?_⟩
    rw [hd]

/-- A name is read from the text of a string, and from nothing else. -/
theorem named_read_iff {α : Type} [BEq α] {ofText : String → α} {toText inspect : α → String}
    {levels : Nat} {t : Node} {x : α} :
    (named ofText toText inspect).read levels t = .ok x ↔
      ∃ s, t.string? = some s ∧ ofText s = x :=
  Outcome.map_eq_ok_iff.trans (exists_congr fun _ => and_congr_left fun _ => readText_iff)

theorem lookUp_eq_ok_iff {α : Type} {table : List (String × α)} {name : String} {x : α} :
    lookUp table name = .ok x ↔ table.lookup name = some x := by
  unfold lookUp
  cases table.lookup name <;> simp

/-- An entry of a table is read from its name. -/
theorem choice_read {α : Type} [BEq α] {table : List (String × α)} {toText inspect : α → String}
    {levels : Nat} {t : Node} {x : α}
    (h : (choice table toText inspect).read levels t = .ok x) :
    ∃ name, t.name? = some name ∧ table.lookup name = some x := by
  change readChoice table levels t = .ok x at h
  rw [readChoice.eq_def] at h
  split at h
  · next body =>
    obtain ⟨name, hname, h⟩ := Outcome.bind_eq_ok_iff.1 h
    obtain ⟨_, hstring, hbody⟩ := readText_eq_ok_iff.1 hname
    cases hstring
    exact ⟨name, hbody, lookUp_eq_ok_iff.1 h⟩
  · cases h
  · next m ms ending =>
    obtain ⟨name, hname, h₁⟩ := Outcome.bind_eq_ok_iff.1 h
    obtain ⟨value, hvalue, h₂⟩ := Outcome.bind_eq_ok_iff.1 h₁
    obtain ⟨_, hunit, h₃⟩ := Outcome.bind_eq_ok_iff.1 h₂
    obtain ⟨_, _, h₄⟩ := Outcome.bind_eq_ok_iff.1 h₃
    obtain ⟨_, hstring, hkey⟩ := readText_eq_ok_iff.1 hname
    cases hstring
    by_cases hms : ms.isEmpty = true
    · rw [if_pos hms] at h₄
      obtain rfl := List.isEmpty_iff.1 hms
      obtain rfl := Except.ok.inj h₄
      obtain ⟨_, _, _, t, _⟩ := m
      obtain rfl : t = .null := eq_null_of_readUnit hunit
      exact ⟨name, hkey, lookUp_eq_ok_iff.1 hvalue⟩
    · rw [if_neg hms] at h₄
      cases h₄
  · cases h

/-- A captured value is the text of the tree. -/
theorem captured_read {levels : Nat} {t : Node} {s : String}
    (h : captured.read levels t = .ok s) : octets s = t.text := by
  unfold captured at h
  dsimp only at h
  split at h
  · next cs _ hcs =>
    obtain rfl := Except.ok.inj h
    exact octets_of_decode? hcs
  · cases h

/-- A value is captured exactly if it is without a break and its octets are those of a text. -/
theorem captured_read_iff {levels : Nat} {t : Node} {s : String} :
    captured.read levels t = .ok s ↔ t.isSound = true ∧ octets s = t.text := by
  constructor
  · intro h
    refine ⟨?_, captured_read h⟩
    by_contra hsound
    rw [Bool.not_eq_true] at hsound
    simp [captured, hsound] at h
  · rintro ⟨hsound, htext⟩
    unfold captured
    dsimp only
    rw [hsound, ← htext, decode?_octets]
    exact congrArg Except.ok String.ofList_toList

end Codec

end Json

end MarketFeed
