import MarketFeed.Proofs.Json.Place
import MarketFeed.Proofs.Json.Writing

/-!
# Where the text of a tree begins and ends

The text of a tree of the grammar begins and ends with an octet of seven bits that is no blank
(`Node.text_ends`).  So octets without a blank at either end that spell a tree are its text
(`text_eq_of_spells`), and a text stays one where another text stands in place of that of a tree
(`isText_around`).
-/

namespace MarketFeed

namespace Json

open Node

/-- An octet of seven bits that is no blank. -/
def Octet.IsSolid (b : UInt8) : Prop := b.toNat < 0x80 ∧ isBlank b = false

instance (b : UInt8) : Decidable (Octet.IsSolid b) := inferInstanceAs (Decidable (_ ∧ _))

/-- No blank stands at either end of the octets. -/
def IsTrimmed (s : List UInt8) : Prop :=
  (∀ b tail, s = b :: tail → Octet.isBlank b = false) ∧
    ∀ init b, s = init ++ [b] → Octet.isBlank b = false

/-! ### Numerals -/

theorem isSolid_toOctet : ∀ d : Digit, Octet.IsSolid d.toOctet := by decide

theorem digitOctets_last {ds : List Digit} (h : ds ≠ []) :
    ∃ init b, Numeral.digitOctets ds = init ++ [b] ∧ Octet.IsSolid b := by
  obtain ⟨ds, d, rfl⟩ := (List.eq_nil_or_concat ds).resolve_left h
  refine ⟨Numeral.digitOctets ds, d.toOctet, ?_, isSolid_toOctet d⟩
  simp [Numeral.digitOctets]

theorem numeral_first {n : Numeral} (h : n.isSpelled = true) :
    ∃ b tail, n.text = b :: tail ∧ Octet.IsSolid b := by
  obtain ⟨b, tail, htext, rfl | hdigit⟩ := number_head h
  · exact ⟨_, tail, htext, by decide⟩
  · obtain ⟨d, hd⟩ := Option.isSome_iff_exists.1 hdigit
    refine ⟨b, tail, htext, ?_⟩
    rw [← Digit.toOctet_of_ofOctet? hd]
    exact isSolid_toOctet d

/-- A numeral ends with the last digit of its last part. -/
theorem numeral_last {n : Numeral} (h : n.isSpelled = true) :
    ∃ init b, n.text = init ++ [b] ∧ Octet.IsSolid b := by
  obtain ⟨negative, whole, fraction, exponent⟩ := n
  simp only [Numeral.isSpelled, Bool.and_eq_true] at h
  obtain ⟨⟨hwhole, hfraction⟩, hexponent⟩ := h
  cases exponent with
  | some e =>
    have hdigits : e.digits ≠ [] := by simpa using hexponent
    obtain ⟨init, b, hlast, hb⟩ := digitOctets_last hdigits
    rw [Numeral.text]
    dsimp only
    rw [Numeral.exponentText.eq_def, hlast, ← List.append_assoc, ← List.append_assoc]
    exact ⟨_, b, rfl, hb⟩
  | none =>
    cases fraction with
    | some ds =>
      have hdigits : ds ≠ [] := by simpa using hfraction
      obtain ⟨init, b, hlast, hb⟩ := digitOctets_last hdigits
      rw [Numeral.text, List.append_nil]
      dsimp only
      rw [hlast, ← List.cons_append, ← List.append_assoc]
      exact ⟨_, b, rfl, hb⟩
    | none =>
      obtain ⟨init, b, hlast, hb⟩ := digitOctets_last (Digits.ne_nil_of_isPlain hwhole)
      rw [Numeral.text, List.append_nil, List.append_nil, hlast, ← List.append_assoc]
      exact ⟨_, b, rfl, hb⟩

/-! ### Trees -/

theorem Node.text_ends {t : Node} (h : t.isGrammatical = true) :
    (∃ b tail, t.text = b :: tail ∧ Octet.IsSolid b) ∧
      ∃ init b, t.text = init ++ [b] ∧ Octet.IsSolid b := by
  cases t with
  | null => exact ⟨⟨0x6E, _, rfl, by decide⟩, [0x6E, 0x75, 0x6C], 0x6C, rfl, by decide⟩
  | bool b =>
    cases b with
    | true => exact ⟨⟨0x74, _, rfl, by decide⟩, [0x74, 0x72, 0x75], 0x65, rfl, by decide⟩
    | false =>
      exact ⟨⟨0x66, _, rfl, by decide⟩, [0x66, 0x61, 0x6C, 0x73], 0x65, rfl, by decide⟩
  | number n =>
    have hn := (Bool.and_eq_true_iff.1 h).1
    exact ⟨numeral_first hn, numeral_last hn⟩
  | string body => exact ⟨⟨Octet.quote, _, rfl, by decide⟩, _, Octet.quote, rfl, by decide⟩
  | array es ending =>
    obtain ⟨gap, rfl, _⟩ := ((isGrammatical_array es ending).1 h).2
    refine ⟨⟨Octet.openBracket, _, rfl, by decide⟩,
      Octet.openBracket :: (elementsText es).drop 1 ++ gap, Octet.closeBracket, ?_, by decide⟩
    rw [text, Ending.text, ← List.append_assoc]
  | object ms ending =>
    obtain ⟨gap, rfl, _⟩ := ((isGrammatical_object ms ending).1 h).2
    refine ⟨⟨Octet.openBrace, _, rfl, by decide⟩,
      Octet.openBrace :: (membersText ms).drop 1 ++ gap, Octet.closeBrace, ?_, by decide⟩
    rw [text, Ending.text, ← List.append_assoc]
  | broken rest => cases (Bool.and_eq_true_iff.1 h).2

theorem isTrimmed_text {t : Node} (h : t.isGrammatical = true) : IsTrimmed t.text := by
  obtain ⟨⟨b, tail, hfirst, hb⟩, init, c, hlast, hc⟩ := text_ends h
  constructor
  · intro b' tail' htext
    obtain ⟨rfl, _⟩ := List.cons_eq_cons.1 (htext.symm.trans hfirst)
    exact hb.2
  · intro init' c' htext
    obtain ⟨_, hcc⟩ := List.append_inj' (htext.symm.trans hlast) rfl
    obtain rfl := List.singleton_inj.1 hcc
    exact hc.2

/-- Octets without a blank at either end are the text of the tree that they spell. -/
theorem text_eq_of_spells {s : List UInt8} {t : Node} (h : Spells s t) (hs : IsTrimmed s) :
    t.text = s := by
  obtain ⟨before, after, hbefore, hafter, _, rfl⟩ := h
  obtain ⟨hfirst, hlast⟩ := hs
  have hbefore : before = [] := by
    cases before with
    | nil => rfl
    | cons b before =>
      have hb := hfirst b (before ++ t.text ++ after) rfl
      simp [Gap.isBlank, hb] at hbefore
  have hafter : after = [] := by
    obtain rfl | ⟨init, b, rfl⟩ := List.eq_nil_or_concat after
    · rfl
    · have hb := hlast (before ++ t.text ++ init) b (by simp)
      simp [Gap.isBlank, hb] at hafter
  rw [hbefore, hafter, List.nil_append, List.append_nil]

/-- A text may be cut on either side of a tree, and put together around another text. -/
theorem isText_around {front back w : List UInt8} {t : Node} (ht : t.isGrammatical = true)
    (h : Utf8.IsText (front ++ t.text ++ back)) (hw : Utf8.IsText w) :
    Utf8.IsText (front ++ w ++ back) := by
  obtain ⟨⟨b, tail, hfirst, hb⟩, init, c, hlast, hc⟩ := text_ends ht
  have hfront : Utf8.IsText front := by
    rw [hfirst, List.append_assoc, List.cons_append] at h
    exact (Utf8.isText_cut hb.1 h).1
  have hback : Utf8.IsText back := by
    rw [hlast, ← List.append_assoc, List.append_assoc, List.singleton_append] at h
    exact (Utf8.isText_cut hc.1 h).2
  exact (hfront.append hw).append hback

/-- With another text at a place a text stays one. -/
theorem Place.isText_fillAll {places : List Place} {before after : List UInt8} {v w : Node}
    (hv : (fillAll places v).isGrammatical = true)
    (h : Utf8.IsText (before ++ (fillAll places v).text ++ after)) (hw : Utf8.IsText w.text) :
    Utf8.IsText (before ++ (fillAll places w).text ++ after) := by
  obtain ⟨front, back, haround⟩ := exists_around_all places
  have hassoc (u : Node) : before ++ (fillAll places u).text ++ after =
      before ++ front ++ u.text ++ (back ++ after) := by
    rw [haround]
    simp
  rw [hassoc] at h ⊢
  exact isText_around (isGrammatical_of_fillAll hv) h hw

/-- Whatever is plain may be written in place of a value of a text. -/
theorem Place.exists_spells_fillAll {places : List Place} {s : String} {v w : Node}
    (h : Spells (octets s) (fillAll places v)) (hw : w.IsPlain) :
    ∃ s', Spells (octets s') (fillAll places w) := by
  obtain ⟨before, after, hbefore, hafter, hgrammatical, hoctets⟩ := h
  have htext := isText_fillAll hgrammatical (hoctets ▸ isText_octets s) hw.text
  exact ⟨_, before, after, hbefore, hafter, isGrammatical_fillAll hgrammatical hw.grammatical,
    octets_textOf htext⟩

end Json

end MarketFeed
