import MarketFeed.Proofs.Json.Reading

/-!
# Written trees

The trees that codecs write are trees of the grammar whose octets are a text (`Node.IsPlain`), so
the text of one spells it (`Node.IsPlain.spells`).
-/

namespace MarketFeed

namespace Json

/-! ### Strings -/

namespace StringPart

theorem toNat_hexOctet : ∀ n < 16, (hexOctet n).toNat < 0x80 ∧
    (hexValue? (hexOctet n)).isSome = true := by
  decide

theorem isSpelled_octet {c : Char} (hquote : c ≠ '"') (hbackslash : c ≠ '\\')
    (hcontrol : ¬c.toNat < 0x20) {b : UInt8} (hb : b ∈ String.utf8EncodeChar c) :
    (octet b).isSpelled = true := by
  have hne (a : UInt8) (ha : a.toNat < 0x80) (hc : c ≠ Char.ofNat a.toNat) : b ≠ a := by
    rintro rfl
    have hnat := (Utf8.encodeChar_of_mem ha hb).2
    exact hc (by rw [← hnat, Char.ofNat_toNat])
  have hle : 0x20 ≤ b := by
    by_contra hlt
    rw [UInt8.not_le, UInt8.lt_iff_toNat_lt] at hlt
    have hlt : b.toNat < 0x20 := hlt
    exact hcontrol ((Utf8.encodeChar_of_mem (by omega) hb).2 ▸ hlt)
  simp only [isSpelled, Bool.and_eq_true, bne_iff_ne, decide_eq_true_eq]
  exact ⟨⟨hne _ (by decide) hquote, hne _ (by decide) hbackslash⟩, hle⟩

theorem isText_letter {b : UInt8} (hb : b.toNat < 0x80) :
    Utf8.IsText ([letter b].flatMap octets) := by
  refine Utf8.isText_of_ascii (List.forall_mem_cons.2 ⟨by decide, ?_⟩)
  exact List.forall_mem_singleton.2 hb

theorem isText_control {n : Nat} (hn : n < 0x20) : Utf8.IsText
    ([code 0x30 0x30 (hexOctet (n / 16)) (hexOctet (n % 16))].flatMap octets) := by
  refine Utf8.isText_of_ascii (List.forall_mem_append.2 ⟨?_, List.forall_mem_nil _⟩)
  simp only [octets, List.forall_mem_cons]
  exact ⟨by decide, by decide, by decide, by decide, (toNat_hexOctet _ (by omega)).1,
    (toNat_hexOctet _ (by omega)).1, List.forall_mem_nil _⟩

/-- What is written for a character is spelled, and its octets are a text. -/
theorem isSpelled_ofChar (c : Char) : (ofChar c).all isSpelled = true ∧
    Utf8.IsText ((ofChar c).flatMap octets) := by
  rw [ofChar]
  split_ifs with h₁ h₂ h₃ h₄ h₅ h₆ h₇ h₈
  iterate 7 exact ⟨by decide, isText_letter (by decide)⟩
  · refine ⟨?_, isText_control h₈⟩
    have hhigh := (toNat_hexOctet (c.toNat / 16) (by omega)).2
    have hlow := (toNat_hexOctet (c.toNat % 16) (by omega)).2
    simp only [isSpelled, List.all_cons, List.all_nil, hhigh, hlow]
    decide
  · constructor
    · rw [List.all_map, List.all_eq_true]
      exact fun b hb => isSpelled_octet h₁ h₂ h₈ hb
    · have hself : ((String.utf8EncodeChar c).map octet).flatMap octets =
          String.utf8EncodeChar c := by
        rw [List.flatMap_map]
        exact List.flatMap_singleton' _
      rw [hself]
      exact ⟨[c], List.append_nil _⟩

theorem isSpelled_encode (s : String) : (encode s).all isSpelled = true := by
  rw [encode, List.all_flatMap, List.all_eq_true]
  exact fun c _ => (isSpelled_ofChar c).1

theorem isText_encode (s : String) : Utf8.IsText ((encode s).flatMap octets) := by
  rw [encode]
  induction s.toList with
  | nil => exact ⟨[], rfl⟩
  | cons c cs ih =>
    rw [List.flatMap_cons, List.flatMap_append]
    exact (isSpelled_ofChar c).2.append ih

end StringPart

/-! ### Trees -/

namespace Node

/-- A tree of the grammar whose octets are a text. -/
structure IsPlain (t : Node) : Prop where
  grammatical : t.isGrammatical = true
  text : Utf8.IsText t.text

theorem isText_word {w : String} (h : w.toList.all (·.toNat < 0x80) = true) :
    Utf8.IsText (word w) := by
  refine Utf8.isText_of_ascii fun b hb => ?_
  obtain ⟨c, hc, rfl⟩ := List.mem_map.1 hb
  have hlt : c.toNat < 0x80 := by simpa using List.all_eq_true.1 h c hc
  rw [Utf8.toNat_ofNat (Nat.lt_trans hlt (by decide))]
  exact hlt

@[simp] theorem isPlain_null : IsPlain null :=
  ⟨rfl, isText_word (by decide)⟩

@[simp] theorem isPlain_bool (b : Bool) : IsPlain (bool b) := by
  refine ⟨rfl, ?_⟩
  cases b <;> exact isText_word (by decide)

theorem toNat_toOctet : ∀ d : Digit, d.toOctet.toNat < 0x80 := by decide

@[simp] theorem isPlain_ofNat (n : Nat) : IsPlain (ofNat n) := by
  constructor
  · simp [ofNat, isGrammatical, isSpelled, isSound, Numeral.isSpelled, Numeral.ofNat,
      Digits.isPlain_ofNat]
  · refine Utf8.isText_of_ascii fun b hb => ?_
    simp only [ofNat, text, Numeral.text, Numeral.ofNat, Numeral.digitOctets, Bool.false_eq_true,
      if_false, List.nil_append, List.append_nil, List.mem_map] at hb
    obtain ⟨d, _, rfl⟩ := hb
    exact toNat_toOctet d

theorem isText_string (s : String) : Utf8.IsText (StringPart.text (StringPart.encode s)) := by
  have hquote : Utf8.IsText [Octet.quote] := Utf8.isText_octet (by decide)
  exact hquote.append ((StringPart.isText_encode s).append hquote)

@[simp] theorem isPlain_ofString (s : String) : IsPlain (ofString s) := by
  refine ⟨?_, isText_string s⟩
  simp [ofString, isGrammatical, isSpelled, isSound, StringPart.isSpelled_encode]

/-! ### Lists and objects -/

/-- Pieces with commas between them are a text if each of them is. -/
theorem isText_listing {α : Type} {piece : α → List UInt8} {xs : List α}
    (h : ∀ x ∈ xs, Utf8.IsText (piece x)) : Utf8.IsText ((Listing.text piece xs).drop 1) := by
  have hcomma : Utf8.IsText [Octet.comma] := Utf8.isText_octet (by decide)
  have htext : Utf8.IsText (Listing.text piece xs) := by
    induction xs with
    | nil => exact ⟨[], rfl⟩
    | cons x xs ih =>
      obtain ⟨hx, hxs⟩ := List.forall_mem_cons.1 h
      exact hcomma.append (hx.append (ih hxs))
  cases xs with
  | nil => exact htext
  | cons x xs => exact (Utf8.isText_cut (s := []) (b := Octet.comma) (by decide) htext).2

@[simp] theorem isPlain_ofList {ts : List Node} (h : ∀ t ∈ ts, t.IsPlain) :
    (ofList ts).IsPlain := by
  constructor
  · refine (isGrammatical_array _ _).2 ⟨fun e he => ?_, [], rfl, rfl, fun _ => rfl⟩
    obtain ⟨t, ht, rfl⟩ := List.mem_map.1 he
    exact ⟨rfl, (h t ht).grammatical, rfl⟩
  · have helements : Utf8.IsText ((elementsText (ts.map fun t => ⟨[], t, []⟩)).drop 1) := by
      rw [elementsText_eq]
      refine isText_listing fun e he => ?_
      obtain ⟨t, ht, rfl⟩ := List.mem_map.1 he
      rw [elementText, List.nil_append, List.append_nil]
      exact (h t ht).text
    have hopen : Utf8.IsText [Octet.openBracket] := Utf8.isText_octet (by decide)
    have hclose : Utf8.IsText [Octet.closeBracket] := Utf8.isText_octet (by decide)
    rw [ofList, text]
    exact (hopen.append helements).append hclose

/-- A member that is written is one of the grammar, and its octets are a text. -/
theorem isMember_member {key : String} {t : Node} (h : t.IsPlain) :
    IsMember (member key t) ∧ Utf8.IsText (memberText (member key t)) := by
  constructor
  · exact ⟨rfl, StringPart.isSpelled_encode key, ⟨[], [], rfl, rfl, rfl⟩, h.grammatical, rfl⟩
  · have hcolon : Utf8.IsText [Octet.colon] := Utf8.isText_octet (by decide)
    rw [member, memberText, List.nil_append, List.append_nil]
    exact ((isText_string key).append hcolon).append h.text

/-- Members that are written as keys and plain values. -/
def AreWritten (ms : List (Entry Node)) : Prop :=
  ∀ m ∈ ms, ∃ key t, m = member key t ∧ t.IsPlain

theorem isPlain_ofMembers {ms : List (Entry Node)} (h : AreWritten ms) :
    (ofMembers ms).IsPlain := by
  constructor
  · refine (isGrammatical_object _ _).2 ⟨fun m hm => ?_, [], rfl, rfl, fun _ => rfl⟩
    obtain ⟨key, t, rfl, ht⟩ := h m hm
    exact (isMember_member ht).1
  · have hmembers : Utf8.IsText ((membersText ms).drop 1) := by
      rw [membersText_eq]
      refine isText_listing fun m hm => ?_
      obtain ⟨key, t, rfl, ht⟩ := h m hm
      exact (isMember_member ht).2
    have hopen : Utf8.IsText [Octet.openBrace] := Utf8.isText_octet (by decide)
    have hclose : Utf8.IsText [Octet.closeBrace] := Utf8.isText_octet (by decide)
    rw [ofMembers, text]
    exact (hopen.append hmembers).append hclose

theorem isPlain_ofPairs {pairs : List (String × Node)} (h : ∀ p ∈ pairs, p.2.IsPlain) :
    (ofPairs pairs).IsPlain := by
  refine isPlain_ofMembers fun m hm => ?_
  obtain ⟨p, hp, rfl⟩ := List.mem_map.1 hm
  exact ⟨p.1, p.2, rfl, h p hp⟩

/-- The text of a plain tree spells it. -/
theorem IsPlain.spells {t : Node} (h : t.IsPlain) : Spells (octets (textOf t.text)) t := by
  rw [octets_textOf h.text]
  exact spells_text h.grammatical

end Node

end Json

end MarketFeed
