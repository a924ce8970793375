import MarketFeed.Proofs.Json.Listing

/-!
# Spelling what is scanned

Whatever octets are scanned, the tree that is found is spelled, and its text and the rest make up
the octets (`Node.spelled_of_scan`).
-/

namespace MarketFeed

namespace Json

namespace Node

/-- A tree is spelled, and its text and the rest make up the octets. -/
def IsTree (s : List UInt8) (found : Node × List UInt8) : Prop :=
  found.1.isSpelled = true ∧ found.1.text ++ found.2 = s

/-- Elements are spelled and make up the octets. -/
abbrev AreElements := Listing.Listed elementSpelled elementText Octet.closeBracket

/-- Members are spelled and make up the octets. -/
abbrev AreMembers := Listing.Listed memberSpelled memberText Octet.closeBrace

/-! ### Leaves -/

theorem isTree_broken (s : List UInt8) : IsTree s (broken s, []) := by
  constructor
  · simp [isSpelled]
  · rw [text, List.append_nil]

theorem eq_of_afterWord? {w : String} {s rest : List UInt8} (h : afterWord? w s = some rest) :
    word w ++ rest = s := by
  rw [afterWord?] at h
  split at h
  · next hw =>
    obtain rfl := Option.some.inj h
    exact (List.prefix_iff_eq_append.1 (List.isPrefixOf_iff_prefix.1 hw))
  · cases h

theorem isTree_scanName (s : List UInt8) : IsTree s (scanName s) := by
  rw [scanName]
  split
  · next h => exact ⟨rfl, eq_of_afterWord? h⟩
  · split
    · next h => exact ⟨rfl, eq_of_afterWord? h⟩
    · split
      · next h => exact ⟨rfl, eq_of_afterWord? h⟩
      · exact isTree_broken s

theorem isTree_scanLeaf (s : List UInt8) : IsTree s (scanLeaf s) := by
  cases s with
  | nil => exact isTree_broken []
  | cons b s =>
    rw [scanLeaf]
    split
    · next hb =>
      split
      · next body rest h =>
        obtain ⟨hbody, rfl⟩ := StringPart.eq_of_scan? h
        exact ⟨hbody, hb ▸ StringPart.text_append body rest⟩
      · exact isTree_broken _
    · split
      · split
        · next n rest h =>
          obtain ⟨hn, hs⟩ := Numeral.eq_of_scan? h
          exact ⟨hn, hs.symm⟩
        · exact isTree_broken _
      · exact isTree_scanName _

/-! ### Elements and members -/

theorem areElements_more {bound : Nat} (htree : ∀ s, IsTree s (scanWithin bound s))
    (hmore : ∀ s, AreElements s (scanMoreElements bound s)) (s : List UInt8) :
    AreElements s (scanMoreElements (bound + 1) s) := by
  rcases hvalue : scanWithin bound (dropGap s) with ⟨value, after⟩
  obtain ⟨hspelled, htext⟩ := htree (dropGap s)
  rw [hvalue] at hspelled htext
  rw [scanMoreElements_eq hvalue]
  apply Listing.listed_behind hmore
  · rw [elementSpelled, takeGap_isBlank, takeGap_isBlank, hspelled]
    rfl
  · rw [elementText, List.append_assoc, takeGap_append_dropGap, List.append_assoc, htext,
      takeGap_append_dropGap]

/-- What is found around a colon is blank, and makes up the octets with the colon and the rest. -/
theorem eq_of_scanColon {s rest : List UInt8} {colon : Option (Gap × Gap)}
    (h : scanColon s = (colon, rest)) :
    (colon = none ∧ rest = s) ∨ ∃ left right, colon = some (left, right) ∧
      left.isBlank = true ∧ right.isBlank = true ∧ left ++ Octet.colon :: right ++ rest = s := by
  have hs := takeGap_append_dropGap s
  rw [scanColon] at h
  split at h
  · cases h
    exact Or.inl ⟨rfl, rfl⟩
  · next b rest' hdrop =>
    split at h
    · next hb =>
      cases h
      refine Or.inr ⟨_, _, rfl, takeGap_isBlank s, takeGap_isBlank rest', ?_⟩
      rw [List.append_assoc, List.cons_append, takeGap_append_dropGap, ← hb, ← hdrop, hs]
    · cases h
      exact Or.inl ⟨rfl, rfl⟩

/-- A member is spelled, and its text and what follows it make up the octets. -/
theorem memberText_scanned {bound : Nat} (htree : ∀ s, IsTree s (scanWithin bound s))
    {s afterKey afterColon after : List UInt8} {key : List StringPart}
    {colon : Option (Gap × Gap)} {value : Node} (hkey : key.all StringPart.isSpelled = true)
    (hs : takeGap s ++ (StringPart.text key ++ afterKey) = s)
    (hcolon : scanColon afterKey = (colon, afterColon))
    (hvalue : (if colon.isSome then scanWithin bound afterColon else (broken afterColon, [])) =
      (value, after)) :
    memberSpelled ⟨takeGap s, key, colon, value, takeGap after⟩ = true ∧
      memberText ⟨takeGap s, key, colon, value, takeGap after⟩ ++ dropGap after = s := by
  have htake := takeGap_append_dropGap after
  obtain ⟨rfl, rfl⟩ | ⟨left, right, rfl, hl, hr, hcolons⟩ := eq_of_scanColon hcolon
  · cases hvalue
    constructor
    · simp [memberSpelled, takeGap_isBlank, hkey, isSound, isSpelled]
    · rw [memberText, List.append_nil, List.append_assoc, htake, List.append_nil, text,
        List.append_assoc, hs]
  · rw [if_pos Option.isSome_some] at hvalue
    have hfound := htree afterColon
    rw [hvalue] at hfound
    obtain ⟨hspelled, htext⟩ := hfound
    constructor
    · simp [memberSpelled, takeGap_isBlank, hkey, hl, hr, hspelled]
    · rw [memberText, List.append_assoc, htake, List.append_assoc, htext, List.append_assoc,
        hcolons, List.append_assoc, hs]

theorem areMembers_more {bound : Nat} (htree : ∀ s, IsTree s (scanWithin bound s))
    (hmore : ∀ s, AreMembers s (scanMoreMembers bound s)) (s : List UInt8) :
    AreMembers s (scanMoreMembers (bound + 1) s) := by
  have hs := takeGap_append_dropGap s
  cases hdrop : dropGap s with
  | nil =>
    rw [scanMoreMembers, hdrop]
    exact Listing.listed_cut s
  | cons b afterQuote =>
    cases hscan : if b = Octet.quote then StringPart.scan? afterQuote else none with
    | none =>
      rw [scanMoreMembers, hdrop]
      dsimp only
      rw [hscan]
      exact Listing.listed_cut s
    | some found =>
      obtain ⟨key, afterKey⟩ := found
      by_cases hb : b = Octet.quote
      · rw [if_pos hb] at hscan
        subst hb
        obtain ⟨hkey, hkeyText⟩ := StringPart.eq_of_scan? hscan
        rcases hcolon : scanColon afterKey with ⟨colon, afterColon⟩
        rcases hvalue : (if colon.isSome then scanWithin bound afterColon
          else (broken afterColon, [])) with ⟨value, after⟩
        rw [hdrop, hkeyText, ← StringPart.text_append] at hs
        obtain ⟨hmember, htext⟩ := memberText_scanned htree hkey hs hcolon hvalue
        rw [scanMoreMembers_eq hdrop hscan hcolon hvalue]
        exact Listing.listed_behind hmore hmember htext
      · rw [if_neg hb] at hscan
        cases hscan

/-! ### Every tree -/

theorem isTree_array {s rest : List UInt8} {es : List (Spaced Node)} {ending : Ending}
    (h : AreElements s (es, ending, rest)) :
    IsTree (Octet.openBracket :: s) (array es ending, rest) := by
  obtain ⟨hes, hending, htext⟩ := h
  constructor
  · rw [isSpelled, elementsSpelled_eq, hes, hending]
    rfl
  · rw [text, elementsText_eq, List.append_assoc, List.cons_append, htext]

theorem isTree_object {s rest : List UInt8} {ms : List (Entry Node)} {ending : Ending}
    (h : AreMembers s (ms, ending, rest)) :
    IsTree (Octet.openBrace :: s) (object ms ending, rest) := by
  obtain ⟨hms, hending, htext⟩ := h
  constructor
  · rw [isSpelled, membersSpelled_eq, hms, hending]
    rfl
  · rw [text, membersText_eq, List.append_assoc, List.cons_append, htext]

/-- What scanning with a bound gives is spelled and stands at the start of the octets. -/
structure ScansSpelled (bound : Nat) : Prop where
  tree : ∀ s, IsTree s (scanWithin bound s)
  elements : ∀ s, AreElements s (scanElements bound s)
  moreElements : ∀ s, AreElements s (scanMoreElements bound s)
  members : ∀ s, AreMembers s (scanMembers bound s)
  moreMembers : ∀ s, AreMembers s (scanMoreMembers bound s)

theorem isTree_scanWithin {bound : Nat} (h : ScansSpelled bound) (s : List UInt8) :
    IsTree s (scanWithin (bound + 1) s) := by
  cases s with
  | nil => exact isTree_broken []
  | cons b s =>
    rw [scanWithin]
    by_cases hbracket : b = Octet.openBracket
    · subst hbracket
      rw [if_pos rfl]
      have hs := h.elements s
      rcases hfound : scanElements bound s with ⟨es, ending, rest⟩
      rw [hfound] at hs
      exact isTree_array hs
    · rw [if_neg hbracket]
      by_cases hbrace : b = Octet.openBrace
      · subst hbrace
        rw [if_pos rfl]
        have hs := h.members s
        rcases hfound : scanMembers bound s with ⟨ms, ending, rest⟩
        rw [hfound] at hs
        exact isTree_object hs
      · rw [if_neg hbrace]
        exact isTree_scanLeaf (b :: s)

theorem scansSpelled (bound : Nat) : ScansSpelled bound := by
  induction bound with
  | zero =>
    constructor
    · intro s
      rw [scanWithin]
      exact isTree_broken s
    · intro s
      rw [scanElements]
      exact Listing.listed_cut s
    · intro s
      rw [scanMoreElements]
      exact Listing.listed_cut s
    · intro s
      rw [scanMembers]
      exact Listing.listed_cut s
    · intro s
      rw [scanMoreMembers]
      exact Listing.listed_cut s
  | succ bound ih =>
    constructor
    · exact isTree_scanWithin ih
    · intro s
      rw [scanElements_eq]
      exact Listing.listed_between ih.moreElements s
    · exact areElements_more ih.tree ih.moreElements
    · intro s
      rw [scanMembers_eq]
      exact Listing.listed_between ih.moreMembers s
    · exact areMembers_more ih.tree ih.moreMembers

/-- The tree that is scanned is spelled, and its text and the rest make up the octets. -/
theorem spelled_of_scan {s rest : List UInt8} {t : Node} (h : scan s = (t, rest)) :
    t.isSpelled = true ∧ t.text ++ rest = s := by
  have htree := (scansSpelled (3 * s.length + 3)).tree s
  rw [← scan, h] at htree
  exact htree

end Node

end Json

end MarketFeed
