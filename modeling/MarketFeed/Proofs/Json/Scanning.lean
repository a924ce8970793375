import MarketFeed.Proofs.Json.Listing

/-!
# Finding trees in their text

Every tree of the grammar is found in its text, whatever follows it that cannot go on with it
(`Node.scan_text`).
-/

namespace MarketFeed

namespace Json

/-- A numeral cannot go on with a blank. -/
theorem stops_gap {gap : Gap} (hgap : gap.isBlank = true) {s : List UInt8}
    (hs : Numeral.stops s = true) : Numeral.stops (gap ++ s) = true := by
  cases gap with
  | nil => exact hs
  | cons b gap =>
    have hb : Octet.isBlank b = true := (Bool.and_eq_true_iff.1 hgap).1
    simp only [Octet.isBlank, Bool.or_eq_true, beq_iff_eq] at hb
    obtain ((rfl | rfl) | rfl) | rfl := hb <;> rfl

namespace Node

/-! ### What the text of a tree starts with -/

theorem word_true : word "true" = [0x74, 0x72, 0x75, 0x65] := by decide

theorem word_false : word "false" = [0x66, 0x61, 0x6C, 0x73, 0x65] := by decide

theorem word_null : word "null" = [0x6E, 0x75, 0x6C, 0x6C] := by decide

theorem number_head {n : Numeral} (h : n.isSpelled = true) :
    ∃ b s, n.text = b :: s ∧ (b = Octet.minus ∨ (Digit.ofOctet? b).isSome = true) := by
  obtain ⟨negative, whole, fraction, exponent⟩ := n
  cases negative with
  | true => exact ⟨Octet.minus, _, rfl, Or.inl rfl⟩
  | false =>
    cases whole with
    | nil => cases h
    | cons d ds => exact ⟨d.toOctet, _, rfl, Or.inr (by simp)⟩

theorem text_head {t : Node} (h : t.isGrammatical = true) :
    ∃ b s, t.text = b :: s ∧ Octet.isBlank b = false ∧ b ≠ Octet.closeBracket := by
  cases t with
  | null => exact ⟨0x6E, _, rfl, by decide, by decide⟩
  | bool b =>
    cases b with
    | true => exact ⟨0x74, _, rfl, by decide, by decide⟩
    | false => exact ⟨0x66, _, rfl, by decide, by decide⟩
  | number n =>
    obtain ⟨b, s, hs, hb⟩ := number_head (Bool.and_eq_true_iff.1 h).1
    refine ⟨b, s, hs, ?_, ?_⟩
    · by_contra hblank
      simp only [Octet.isBlank, Bool.not_eq_false, Bool.or_eq_true, beq_iff_eq] at hblank
      obtain ((rfl | rfl) | rfl) | rfl := hblank <;> exact absurd hb (by decide)
    · rintro rfl
      exact absurd hb (by decide)
  | string body => exact ⟨Octet.quote, _, rfl, by decide, by decide⟩
  | array es ending => exact ⟨Octet.openBracket, _, rfl, by decide, by decide⟩
  | object ms ending => exact ⟨Octet.openBrace, _, rfl, by decide, by decide⟩
  | broken rest => cases (Bool.and_eq_true_iff.1 h).2

theorem startsBare_text {t : Node} (h : t.isGrammatical = true) (rest : List UInt8) :
    startsBare (t.text ++ rest) = true := by
  obtain ⟨b, s, hs, hb, _⟩ := text_head h
  rw [hs]
  exact congrArg Bool.not hb

/-! ### Finding the trees of the grammar -/

/-- A tree is found in its text with whatever follows, if there are enough steps for its length. -/
def IsFound (t : Node) : Prop :=
  ∀ bound rest, 3 * t.text.length ≤ bound → Numeral.stops rest = true →
    scanWithin bound (t.text ++ rest) = (t, rest)

theorem isFound_leaf {t : Node} {b : UInt8} {s : List UInt8} (ht : t.text = b :: s)
    (hbracket : b ≠ Octet.openBracket) (hbrace : b ≠ Octet.openBrace)
    (h : ∀ rest, Numeral.stops rest = true → scanLeaf (b :: (s ++ rest)) = (t, rest)) :
    IsFound t := by
  intro bound rest hb hr
  rw [ht, List.length_cons] at hb
  obtain ⟨bound, rfl, _⟩ := Listing.exists_step hb
  rw [ht, List.cons_append, scanWithin, if_neg hbracket, if_neg hbrace]
  exact h rest hr

theorem isFound_null : IsFound null :=
  isFound_leaf word_null (by decide) (by decide) fun _ _ => rfl

theorem isFound_bool (b : Bool) : IsFound (bool b) := by
  cases b with
  | true => exact isFound_leaf word_true (by decide) (by decide) fun _ _ => rfl
  | false => exact isFound_leaf word_false (by decide) (by decide) fun _ _ => rfl

theorem isFound_number {n : Numeral} (h : n.isSpelled = true) : IsFound (number n) := by
  obtain ⟨b, s, hs, hhead⟩ := number_head h
  have hne : ∀ c, ¬(c = Octet.minus ∨ (Digit.ofOctet? c).isSome = true) → b ≠ c := by
    rintro c hc rfl
    exact hc hhead
  refine isFound_leaf (t := number n) hs (hne _ (by decide)) (hne _ (by decide)) ?_
  intro rest hr
  have hscan := Numeral.scan?_text h hr
  rw [hs, List.cons_append] at hscan
  rw [scanLeaf, if_neg (hne _ (by decide)), if_pos hhead, hscan]

theorem isFound_string {body : List StringPart} (h : body.all StringPart.isSpelled = true) :
    IsFound (string body) := by
  have htext : (string body).text =
      Octet.quote :: (body.flatMap StringPart.octets ++ [Octet.quote]) := rfl
  refine isFound_leaf htext (by decide) (by decide) ?_
  intro rest _
  have hscan := StringPart.scan?_octets h rest
  rw [List.append_assoc, List.singleton_append, scanLeaf, if_pos rfl, hscan]

/-! ### Finding arrays -/

theorem isFound_element {e : Spaced Node} (he : IsElement e) (hf : IsFound e.value) :
    Listing.IsFound elementText Octet.closeBracket scanMoreElements e := by
  obtain ⟨before, value, after⟩ := e
  intro bound b s hbound hb
  have hbare : startsBare (b :: s) = true := by obtain rfl | rfl := hb <;> rfl
  have hstops : Numeral.stops (b :: s) = true := by obtain rfl | rfl := hb <;> rfl
  have hvalue := startsBare_text he.value (after ++ b :: s)
  have hlength : 3 * value.text.length ≤ bound := by
    simp only [elementText, List.length_append] at hbound
    omega
  have hscan : scanWithin bound (value.text ++ (after ++ b :: s)) = (value, after ++ b :: s) :=
    hf bound _ hlength (stops_gap he.after hstops)
  rw [← dropGap_append he.before hvalue] at hscan
  rw [elementText, List.append_assoc, List.append_assoc, scanMoreElements_eq hscan,
    takeGap_append he.before hvalue, takeGap_append he.after hbare,
    dropGap_append he.after hbare]

theorem dropGap_element {e : Spaced Node} (he : IsElement e) (s : List UInt8) :
    ∃ b s', dropGap (elementText e ++ s) = b :: s' ∧ b ≠ Octet.closeBracket := by
  obtain ⟨before, value, after⟩ := e
  obtain ⟨b, s', hs, _, hclose⟩ := text_head he.value
  refine ⟨b, s' ++ (after ++ s), ?_, hclose⟩
  rw [elementText, List.append_assoc, List.append_assoc,
    dropGap_append he.before (startsBare_text he.value _)]
  exact congrArg (· ++ (after ++ s)) hs

theorem isFound_array {es : List (Spaced Node)} {ending : Ending}
    (h : (array es ending).isGrammatical = true) (hf : ∀ e ∈ es, IsFound e.value) :
    IsFound (array es ending) := by
  obtain ⟨he, hending⟩ := (isGrammatical_array es ending).1 h
  intro bound rest hb _
  rw [text, List.cons_append, List.length_cons] at hb
  obtain ⟨bound, rfl, hb⟩ := Listing.exists_step hb
  obtain ⟨bound, rfl⟩ : ∃ b, bound = b + 1 := ⟨bound - 1, by omega⟩
  have hlength : 3 * ((Listing.text elementText es).drop 1 ++
      ending.text Octet.closeBracket).length ≤ bound := by
    rw [elementsText_eq] at hb
    omega
  have hbetween := Listing.between_text (by decide) (by decide) hending
    (fun e hmem => dropGap_element (he e hmem))
    (fun e hmem => isFound_element (he e hmem) (hf e hmem)) hlength rest
  rw [text, List.cons_append, List.cons_append, List.append_assoc, scanWithin, if_pos rfl,
    scanElements_eq, elementsText_eq, hbetween]

/-! ### Finding objects -/

theorem scanColon_append {left right : Gap} (hl : left.isBlank = true) (hr : right.isBlank = true)
    {s : List UInt8} (hs : startsBare s = true) :
    scanColon (left ++ Octet.colon :: (right ++ s)) = (some (left, right), s) := by
  have hbare : startsBare (Octet.colon :: (right ++ s)) = true := rfl
  rw [scanColon, dropGap_append hl hbare, takeGap_append hl hbare]
  dsimp only
  rw [if_pos rfl, takeGap_append hr hs, dropGap_append hr hs]

/-- The text of a member begins with its gap, its key and its colon. -/
theorem memberText_append {m : Entry Node} {left right : Gap}
    (hcolon : m.colon = some (left, right)) (s : List UInt8) :
    memberText m ++ s = m.before ++ Octet.quote :: (m.key.flatMap StringPart.octets ++
      Octet.quote :: (left ++ Octet.colon :: (right ++ (m.value.text ++ (m.after ++ s))))) := by
  obtain ⟨before, key, colon, value, after⟩ := m
  obtain rfl : colon = some (left, right) := hcolon
  simp [memberText, StringPart.text]

theorem isFound_member {m : Entry Node} (hm : IsMember m) (hf : IsFound m.value) :
    Listing.IsFound memberText Octet.closeBrace scanMoreMembers m := by
  obtain ⟨left, right, hcolon, hl, hr⟩ := hm.colon
  intro bound b s hbound hb
  have hbare : startsBare (b :: s) = true := by obtain rfl | rfl := hb <;> rfl
  have hstops : Numeral.stops (b :: s) = true := by obtain rfl | rfl := hb <;> rfl
  have hquote : ∀ s, startsBare (Octet.quote :: s) = true := fun _ => rfl
  have hvalue := startsBare_text hm.value (m.after ++ b :: s)
  have hlength : 3 * m.value.text.length ≤ bound := by
    have := congrArg List.length (memberText_append hcolon [])
    simp only [List.length_append, List.length_cons, List.length_nil] at this
    omega
  have hscan : scanWithin bound (m.value.text ++ (m.after ++ b :: s)) =
      (m.value, m.after ++ b :: s) := hf bound _ hlength (stops_gap hm.after hstops)
  have hdrop := dropGap_append hm.before (hquote (m.key.flatMap StringPart.octets ++
    Octet.quote :: (left ++ Octet.colon :: (right ++ (m.value.text ++ (m.after ++ b :: s))))))
  rw [memberText_append hcolon, scanMoreMembers_eq hdrop (StringPart.scan?_octets hm.key _)
    (scanColon_append hl hr hvalue) ((if_pos rfl).trans hscan), takeGap_append hm.before (hquote _),
    takeGap_append hm.after hbare, dropGap_append hm.after hbare, ← hcolon]

theorem dropGap_member {m : Entry Node} (hm : IsMember m) (s : List UInt8) :
    ∃ b s', dropGap (memberText m ++ s) = b :: s' ∧ b ≠ Octet.closeBrace := by
  obtain ⟨left, right, hcolon, _, _⟩ := hm.colon
  have hdrop := dropGap_append hm.before (s := Octet.quote :: (m.key.flatMap StringPart.octets ++
    Octet.quote :: (left ++ Octet.colon :: (right ++ (m.value.text ++ (m.after ++ s)))))) rfl
  rw [← memberText_append hcolon] at hdrop
  exact ⟨Octet.quote, _, hdrop, by decide⟩

theorem isFound_object {ms : List (Entry Node)} {ending : Ending}
    (h : (object ms ending).isGrammatical = true) (hf : ∀ m ∈ ms, IsFound m.value) :
    IsFound (object ms ending) := by
  obtain ⟨hm, hending⟩ := (isGrammatical_object ms ending).1 h
  intro bound rest hb _
  rw [text, List.cons_append, List.length_cons] at hb
  obtain ⟨bound, rfl, hb⟩ := Listing.exists_step hb
  obtain ⟨bound, rfl⟩ : ∃ b, bound = b + 1 := ⟨bound - 1, by omega⟩
  have hlength : 3 * ((Listing.text memberText ms).drop 1 ++
      ending.text Octet.closeBrace).length ≤ bound := by
    rw [membersText_eq] at hb
    omega
  have hbetween := Listing.between_text (by decide) (by decide) hending
    (fun m hmem => dropGap_member (hm m hmem))
    (fun m hmem => isFound_member (hm m hmem) (hf m hmem)) hlength rest
  rw [text, List.cons_append, List.cons_append, List.append_assoc, scanWithin,
    if_neg (by decide), if_pos rfl, scanMembers_eq, membersText_eq, hbetween]

/-! ### Finding every tree -/

/-- Every tree of the grammar is found in its text. -/
theorem isFound_of_isGrammatical {t : Node} (h : t.isGrammatical = true) : IsFound t := by
  induction t using induct with
  | null => exact isFound_null
  | bool b => exact isFound_bool b
  | number n => exact isFound_number (Bool.and_eq_true_iff.1 h).1
  | string body => exact isFound_string (Bool.and_eq_true_iff.1 h).1
  | array es ending ih =>
    have he := ((isGrammatical_array es ending).1 h).1
    exact isFound_array h fun e hmem => ih e hmem (he e hmem).value
  | object ms ending ih =>
    have hm := ((isGrammatical_object ms ending).1 h).1
    exact isFound_object h fun m hmem => ih m hmem (hm m hmem).value
  | broken rest => cases (Bool.and_eq_true_iff.1 h).2

/-- A tree of the grammar is scanned up to what cannot go on with it. -/
theorem scan_text {t : Node} (h : t.isGrammatical = true) {rest : List UInt8}
    (hr : Numeral.stops rest = true) : scan (t.text ++ rest) = (t, rest) := by
  apply isFound_of_isGrammatical h _ rest _ hr
  rw [List.length_append]
  omega

end Node

end Json

end MarketFeed
