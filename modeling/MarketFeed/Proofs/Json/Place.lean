import MarketFeed.Proofs.Json.View

/-!
# Places in trees

A `Place` is an array or an object without one of its values, and `Place.fill` the tree with a value
there.  What stands around the value in the text does not depend on it (`Place.exists_around`).  A
place is reached from outside by a `Step`, to an element or to the value of a field, and
`Place.fillAll` fills the last of places that are one inside the other.
-/

namespace MarketFeed

namespace Json

open Node

/-- A step into a tree: to an element, or to the value of the field with the given keys and
position. -/
inductive Step where
  | element
  | field (keys : List String) (position : Nat)

/-- An array without the value of one element, or an object without the value of one member. -/
inductive Place where
  | element (before : List (Spaced Node)) (left right : Gap) (after : List (Spaced Node))
    (ending : Ending)
  | member (before : List (Entry Node)) (left : Gap) (key : List StringPart)
    (colon : Option (Gap × Gap)) (right : Gap) (after : List (Entry Node)) (ending : Ending)

namespace Place

/-- The tree with a value at the place. -/
def fill : Place → Node → Node
  | element before left right after ending, v =>
    array (before ++ ⟨left, v, right⟩ :: after) ending
  | member before left key colon right after ending, v =>
    object (before ++ ⟨left, key, colon, v, right⟩ :: after) ending

/-- The tree with a value at the last of the places, each of which is in the one before it. -/
def fillAll (places : List Place) (v : Node) : Node := places.foldr fill v

/-- A step leads to the place. -/
def IsAt : Place → Step → Prop
  | element .., .element => True
  | element before .., .field _ position => before.length = position
  | member .., .element => False
  | member _ _ key .., .field keys _ => ∃ k ∈ keys, StringPart.decode? key = some k

variable {place : Place} {places : List Place} {v w : Node}

theorem fillAll_cons (place : Place) (places : List Place) (v : Node) :
    fillAll (place :: places) v = place.fill (fillAll places v) := rfl

theorem fillAll_ne_null (hv : v ≠ null) : fillAll places v ≠ null := by
  cases places with
  | nil => exact hv
  | cons place places => cases place <;> nofun

/-! ### Texts -/

theorem exists_around_piece {β : Type} (piece : β → List UInt8) (before after : List β) :
    ∃ front back, ∀ x,
      (Listing.text piece (before ++ x :: after)).drop 1 = front ++ piece x ++ back := by
  cases before with
  | nil => exact ⟨[], Listing.text piece after, fun _ => rfl⟩
  | cons y before =>
    have htext (xs ys : List β) :
        Listing.text piece (xs ++ ys) = Listing.text piece xs ++ Listing.text piece ys := by
      induction xs with
      | nil => rfl
      | cons x xs ih => simp [Listing.text, ih]
    refine ⟨piece y ++ Listing.text piece before ++ [Octet.comma], Listing.text piece after,
      fun x => ?_⟩
    simp [Listing.text, htext]

/-- The text around the value is the same for any value. -/
theorem exists_around (place : Place) :
    ∃ front back, ∀ v, (place.fill v).text = front ++ v.text ++ back := by
  cases place with
  | element before left right after ending =>
    obtain ⟨front, back, hpiece⟩ := exists_around_piece elementText before after
    refine ⟨Octet.openBracket :: front ++ left, right ++ back ++ ending.text Octet.closeBracket,
      fun v => ?_⟩
    rw [fill, text, elementsText_eq, hpiece, elementText]
    simp
  | member before left key colon right after ending =>
    obtain ⟨front, back, hpiece⟩ := exists_around_piece memberText before after
    refine ⟨Octet.openBrace :: front ++ left ++ StringPart.text key ++
      colon.elim [] (fun gaps => gaps.1 ++ Octet.colon :: gaps.2),
      right ++ back ++ ending.text Octet.closeBrace, fun v => ?_⟩
    rw [fill, text, membersText_eq, hpiece, memberText.eq_def]
    cases colon <;> simp

theorem exists_around_all (places : List Place) :
    ∃ front back, ∀ v, (fillAll places v).text = front ++ v.text ++ back := by
  induction places with
  | nil => exact ⟨[], [], fun v => (List.append_nil _).symm⟩
  | cons place places ih =>
    obtain ⟨front, back, hplace⟩ := exists_around place
    obtain ⟨front', back', hplaces⟩ := ih
    refine ⟨front ++ front', back' ++ back, fun v => ?_⟩
    rw [fillAll_cons, hplace, hplaces]
    simp

/-! ### The grammar -/

theorem isGrammatical_of_fill (h : (place.fill v).isGrammatical = true) :
    v.isGrammatical = true := by
  cases place with
  | element before left right after ending =>
    exact (((isGrammatical_array _ _).1 h).1 ⟨left, v, right⟩ (by simp)).value
  | member before left key colon right after ending =>
    exact (((isGrammatical_object _ _).1 h).1 ⟨left, key, colon, v, right⟩ (by simp)).value

theorem isGrammatical_of_fillAll (h : (fillAll places v).isGrammatical = true) :
    v.isGrammatical = true := by
  induction places with
  | nil => exact h
  | cons place places ih => exact ih (isGrammatical_of_fill h)

theorem isEmpty_around {β : Type} (before after : List β) (x : β) :
    (before ++ x :: after).isEmpty = false := by simp

/-- Another value of the grammar may stand at a place of the grammar. -/
theorem isGrammatical_fill (h : (place.fill v).isGrammatical = true)
    (hw : w.isGrammatical = true) : (place.fill w).isGrammatical = true := by
  cases place with
  | element before left right after ending =>
    obtain ⟨hes, hending⟩ := (isGrammatical_array _ _).1 h
    simp only [List.forall_mem_append, List.forall_mem_cons] at hes
    obtain ⟨hbefore, he, hafter⟩ := hes
    rw [isEmpty_around] at hending
    refine (isGrammatical_array _ _).2 ⟨?_, by rwa [isEmpty_around]⟩
    exact List.forall_mem_append.2
      ⟨hbefore, List.forall_mem_cons.2 ⟨⟨he.before, hw, he.after⟩, hafter⟩⟩
  | member before left key colon right after ending =>
    obtain ⟨hms, hending⟩ := (isGrammatical_object _ _).1 h
    simp only [List.forall_mem_append, List.forall_mem_cons] at hms
    obtain ⟨hbefore, hm, hafter⟩ := hms
    rw [isEmpty_around] at hending
    refine (isGrammatical_object _ _).2 ⟨?_, by rwa [isEmpty_around]⟩
    exact List.forall_mem_append.2
      ⟨hbefore, List.forall_mem_cons.2 ⟨⟨hm.before, hm.key, hm.colon, hw, hm.after⟩, hafter⟩⟩

theorem isGrammatical_fillAll (h : (fillAll places v).isGrammatical = true)
    (hw : w.isGrammatical = true) : (fillAll places w).isGrammatical = true := by
  induction places with
  | nil => exact hw
  | cons place places ih => exact isGrammatical_fill h (ih (isGrammatical_of_fill h))

/-! ### Steps -/

theorem isNamed_of_isAt {before after : List (Entry Node)} {left right : Gap}
    {key : List StringPart} {colon : Option (Gap × Gap)} {ending : Ending} {keys : List String}
    {position : Nat}
    (h : (member before left key colon right after ending).IsAt (.field keys position)) (v : Node) :
    Entry.isNamed keys ⟨left, key, colon, v, right⟩ = true := by
  obtain ⟨k, hk, hkey⟩ := h
  rw [Entry.isNamed_of_decode? hkey]
  exact List.contains_iff_mem.2 hk

/-- An element of an array stands at a place. -/
theorem exists_element {es : List (Spaced Node)} {i : Nat} (hi : i < es.length) (ending : Ending) :
    ∃ before left right after, before.length = i ∧
      (element before left right after ending).fill es[i].value = array es ending := by
  refine ⟨es.take i, es[i].before, es[i].after, es.drop (i + 1),
    List.length_take_of_le (Nat.le_of_lt hi), ?_⟩
  change array (es.take i ++ es[i] :: es.drop (i + 1)) ending = _
  rw [List.getElem_cons_drop, List.take_append_drop]

/-- The one value for a field stands at a place. -/
theorem exists_of_field? {t : Node} {keys : List String} {position : Nat}
    (h : t.field? keys position = some v) :
    ∃ place : Place, place.IsAt (.field keys position) ∧ place.fill v = t := by
  have hmem : v ∈ t.fieldValues keys position := by
    unfold field? at h
    split at h
    · next w hw =>
      obtain rfl := Option.some.inj h
      exact hw ▸ List.mem_singleton_self w
    · cases h
  cases t with
  | array es ending =>
    obtain ⟨e, he, rfl⟩ := List.mem_map.1 hmem
    obtain ⟨hlt, rfl⟩ := List.getElem?_eq_some_iff.1 (Option.mem_toList.1 he)
    obtain ⟨before, left, right, after, hlength, hfill⟩ := exists_element hlt ending
    exact ⟨element before left right after ending, hlength, hfill⟩
  | object ms ending =>
    obtain ⟨m, hm, rfl⟩ := List.mem_map.1 hmem
    obtain ⟨hm, hnamed⟩ := List.mem_filter.1 hm
    obtain ⟨before, after, rfl⟩ := List.append_of_mem hm
    obtain ⟨left, key, colon, v, right⟩ := m
    rw [Entry.isNamed, Option.any_eq_true] at hnamed
    obtain ⟨k, hkey, hk⟩ := hnamed
    exact ⟨member before left key colon right after ending,
      ⟨k, List.contains_iff_mem.1 hk, hkey⟩, rfl⟩
  | _ => cases hmem

end Place

end Json

end MarketFeed
