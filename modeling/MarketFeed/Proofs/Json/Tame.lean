import MarketFeed.Proofs.Json.Inline

/-!
# Trees that can be kept

A tree is tame (`Node.isTame`) if no surrogate stands alone in its strings and keys, its numbers are
in range, and it is not nested too deeply.  Where octets are a text, the tame trees in them can be
kept (`Node.kept_of_isTame`).
-/

namespace MarketFeed

namespace Json

namespace StringPart

/-- Whether half of a surrogate pair is escaped without the other half beside it. -/
def hasLoneSurrogate : List StringPart → Bool
  | [] => false
  | octet _ :: body => hasLoneSurrogate body
  | letter _ :: body => hasLoneSurrogate body
  | code a b c d :: body =>
    if isHigh (unit a b c d) then
      match body with
      | code a' b' c' d' :: body => !isLow (unit a' b' c' d') || hasLoneSurrogate body
      | _ => true
    else isLow (unit a b c d) || hasLoneSurrogate body

/-! ### Strings in a text -/

theorem hasLoneSurrogate_octets (bytes : List UInt8) (body : List StringPart) :
    hasLoneSurrogate (bytes.map octet ++ body) = hasLoneSurrogate body := by
  induction bytes with
  | nil => rfl
  | cons b bytes ih => rw [List.map_cons, List.cons_append, hasLoneSurrogate, ih]

/-- Octets of eight bits stand for themselves. -/
theorem eq_map_octet {bytes rest : List UInt8} (hbytes : ∀ b ∈ bytes, 0x80 ≤ b.toNat)
    {body : List StringPart} (h : body.flatMap octets = bytes ++ rest) :
    ∃ body', body = bytes.map octet ++ body' ∧ body'.flatMap octets = rest := by
  induction bytes generalizing body with
  | nil => exact ⟨body, rfl, h⟩
  | cons b bytes ih =>
    obtain ⟨hb, hbytes⟩ := List.forall_mem_cons.1 hbytes
    cases body with
    | nil => cases h
    | cons p body =>
      rw [List.flatMap_cons] at h
      cases p with
      | octet a =>
        obtain ⟨hab, htail⟩ := List.cons_eq_cons.1 h
        obtain ⟨body', rfl, hrest⟩ := ih hbytes htail
        exact ⟨body', by rw [hab]; rfl, hrest⟩
      | letter a | code a _ _ _ =>
        obtain ⟨rfl, _⟩ := List.cons_eq_cons.1 h
        exact absurd hb (by decide)

/-- Where an octet stands for itself, so do those of the character that begins there. -/
theorem eq_encodeChar_append {b : UInt8} {body : List StringPart}
    (h : Utf8.IsText ((octet b :: body).flatMap octets)) :
    ∃ c body', octet b :: body = (String.utf8EncodeChar c).map octet ++ body' ∧
      Utf8.IsText (body'.flatMap octets) := by
  obtain ⟨_ | ⟨c, cs⟩, hcs⟩ := h
  · cases hcs
  · rw [Utf8.encode_cons] at hcs
    by_cases hascii : ∃ a ∈ String.utf8EncodeChar c, a.toNat < 0x80
    · obtain ⟨a, ha, hlt⟩ := hascii
      obtain ⟨hc, _⟩ := Utf8.encodeChar_of_mem hlt ha
      rw [hc] at hcs
      obtain ⟨rfl, hrest⟩ := List.cons_eq_cons.1 hcs
      exact ⟨c, body, by rw [hc]; rfl, cs, hrest⟩
    · have height : ∀ a ∈ String.utf8EncodeChar c, 0x80 ≤ a.toNat :=
        fun a ha => Nat.le_of_not_lt fun hlt => hascii ⟨a, ha, hlt⟩
      obtain ⟨body', hbody, hrest⟩ := eq_map_octet height hcs.symm
      exact ⟨c, body', hbody, cs, hrest.symm⟩

theorem toNat_lt_of_hexValue? {b : UInt8} (h : (hexValue? b).isSome = true) : b.toNat < 0x80 := by
  unfold hexValue? at h
  dsimp only at h
  split_ifs at h
  any_goals omega
  cases h

theorem toNat_lt_of_meaning? {b c : UInt8} (h : meaning? b = some c) :
    b.toNat < 0x80 ∧ c.toNat < 0x80 := by
  unfold meaning? at h
  split_ifs at h with h₁ h₂ h₃ h₄ h₅ h₆
  · obtain rfl := Option.some.inj h
    obtain rfl | rfl | rfl := h₁ <;> decide
  all_goals
    obtain rfl := Option.some.inj h
    subst_vars
    decide

/-- Whether a part is an escape. -/
def isEscape : StringPart → Bool
  | octet _ => false
  | _ => true

theorem isText_tail {p : StringPart} (hp : p.isSpelled = true) (hescape : p.isEscape = true)
    {body : List StringPart} (h : Utf8.IsText ((p :: body).flatMap octets)) :
    Utf8.IsText (body.flatMap octets) := by
  cases p with
  | octet b => cases hescape
  | letter b =>
    obtain ⟨c, hc⟩ := Option.isSome_iff_exists.1 hp
    exact (Utf8.isText_cut (s := [Octet.backslash]) (toNat_lt_of_meaning? hc).1 h).2
  | code a b c d =>
    have hd := (List.all_eq_true.1 hp) d (by simp)
    exact (Utf8.isText_cut (s := [Octet.backslash, Octet.smallU, a, b, c])
      (toNat_lt_of_hexValue? hd) h).2

/-- What follows escapes in a text is a text. -/
theorem isText_drop {escapes rest : List StringPart} (hspelled : escapes.all isSpelled = true)
    (hescapes : escapes.all isEscape = true)
    (h : Utf8.IsText ((escapes ++ rest).flatMap octets)) : Utf8.IsText (rest.flatMap octets) := by
  induction escapes with
  | nil => exact h
  | cons p escapes ih =>
    rw [List.all_cons, Bool.and_eq_true] at hspelled hescapes
    exact ih hspelled.2 hescapes.2 (isText_tail hspelled.1 hescapes.1 h)

theorem meaningOf?_single {a b c d : UInt8} (high : isHigh (unit a b c d) = false)
    (low : isLow (unit a b c d) = false) (body : List StringPart) :
    meaningOf? (code a b c d :: body) =
      (meaningOf? body).map (String.utf8EncodeChar (Char.ofNat (unit a b c d)) ++ ·) := by
  rw [meaningOf?.eq_def]
  simp [high, low]

theorem meaningOf?_pair {a b c d a' b' c' d' : UInt8} (high : isHigh (unit a b c d) = true)
    (low : isLow (unit a' b' c' d') = true) (body : List StringPart) :
    ∃ u, meaningOf? (code a b c d :: code a' b' c' d' :: body) =
      (meaningOf? body).map (String.utf8EncodeChar (Char.ofNat u) ++ ·) := by
  refine ⟨0x10000 + (unit a b c d - 0xD800) * 0x400 + (unit a' b' c' d' - 0xDC00), ?_⟩
  rw [meaningOf?]
  simp [high, low]

/-- A code unit with what belongs to it stands before a shorter string. -/
theorem meaningOf?_code {a b c d : UInt8} {body : List StringPart}
    (hlone : hasLoneSurrogate (code a b c d :: body) = false) :
    ∃ u units rest, body = units ++ rest ∧ units.all isEscape = true ∧
      hasLoneSurrogate rest = false ∧ meaningOf? (code a b c d :: body) =
        (meaningOf? rest).map (String.utf8EncodeChar (Char.ofNat u) ++ ·) := by
  unfold hasLoneSurrogate at hlone
  split at hlone
  · next high =>
    split at hlone
    · next a' b' c' d' body =>
      obtain ⟨low, hrest⟩ := Bool.or_eq_false_iff.1 hlone
      obtain ⟨u, hu⟩ := meaningOf?_pair high (by simpa using low) body
      exact ⟨u, [_], body, rfl, rfl, hrest, hu⟩
    · cases hlone
  · next high =>
    obtain ⟨low, hrest⟩ := Bool.or_eq_false_iff.1 hlone
    exact ⟨_, [], body, rfl, rfl, hrest, meaningOf?_single (Bool.eq_false_iff.2 high) low body⟩

/-- A string of a text begins with the parts of one character, before a string of a text. -/
theorem meaningOf?_peel {p : StringPart} {body : List StringPart}
    (hspelled : (p :: body).all isSpelled = true)
    (htext : Utf8.IsText ((p :: body).flatMap octets))
    (hlone : hasLoneSurrogate (p :: body) = false) :
    ∃ c front rest, p :: body = front ++ rest ∧ front ≠ [] ∧
      Utf8.IsText (rest.flatMap octets) ∧ hasLoneSurrogate rest = false ∧
      meaningOf? (p :: body) = (meaningOf? rest).map (String.utf8EncodeChar c ++ ·) := by
  rw [List.all_cons, Bool.and_eq_true] at hspelled
  obtain ⟨hp, hbody⟩ := hspelled
  cases p with
  | octet b =>
    obtain ⟨c, rest, heq, hrest⟩ := eq_encodeChar_append htext
    rw [heq, hasLoneSurrogate_octets] at hlone
    refine ⟨c, _, rest, heq, fun hnil => ?_, hrest, hlone, ?_⟩
    · exact absurd (List.map_eq_nil_iff.1 hnil) (by simp)
    · rw [heq, meaningOf?_octets]
  | letter b =>
    obtain ⟨c, hc⟩ := Option.isSome_iff_exists.1 hp
    refine ⟨Char.ofNat c.toNat, [letter b], body, rfl, List.cons_ne_nil _ _,
      isText_tail hp rfl htext, hlone, ?_⟩
    rw [meaningOf?_letter hc, Utf8.encodeChar_one (toNat_lt_of_meaning? hc).2]
  | code a b c d =>
    obtain ⟨u, units, rest, rfl, hunits, hlone, hmeaning⟩ := meaningOf?_code hlone
    rw [List.all_append, Bool.and_eq_true] at hbody
    refine ⟨Char.ofNat u, code a b c d :: units, rest, rfl, List.cons_ne_nil _ _, ?_, hlone,
      hmeaning⟩
    exact isText_drop hbody.1 hunits (isText_tail hp rfl htext)

/-- What a string of a text means is a text, unless a surrogate stands alone in it. -/
theorem isText_meaning {body : List StringPart} (hspelled : body.all isSpelled = true)
    (htext : Utf8.IsText (body.flatMap octets)) (hlone : hasLoneSurrogate body = false) :
    ∃ s, meaningOf? body = some s ∧ Utf8.IsText s := by
  -- A character may take up several parts, so the induction is on the length.
  induction hlen : body.length using Nat.strongRecOn generalizing body with
  | ind n ih =>
    cases body with
    | nil => exact ⟨[], rfl, [], rfl⟩
    | cons p body =>
      obtain ⟨c, front, rest, hbody, hfront, hrest, hlone, hmeaning⟩ :=
        meaningOf?_peel hspelled htext hlone
      rw [hbody, List.all_append, Bool.and_eq_true] at hspelled
      have hshorter : rest.length < n := by
        have := List.length_pos_of_ne_nil hfront
        rw [← hlen, hbody, List.length_append]
        omega
      obtain ⟨s, hs, htext⟩ := ih rest.length hshorter hspelled.2 hrest hlone rfl
      refine ⟨String.utf8EncodeChar c ++ s, ?_, htext.cons c⟩
      rw [hmeaning, hs]
      rfl

/-- A string of a text stands for a text, unless a surrogate stands alone in it. -/
theorem isSome_decode? {body : List StringPart} (hspelled : body.all isSpelled = true)
    (htext : Utf8.IsText (body.flatMap octets)) (hlone : hasLoneSurrogate body = false) :
    (decode? body).isSome = true := by
  obtain ⟨_, hmeaning, cs, rfl⟩ := isText_meaning hspelled htext hlone
  simp [decode?, hmeaning]

end StringPart

namespace Node

/-! ### Trees in a text -/

theorem isText_piece {body : List StringPart} {raw : List UInt8} (hraw : Utf8.IsText raw)
    (h : StringPart.text body <:+: raw) : Utf8.IsText (body.flatMap StringPart.octets) := by
  obtain ⟨before, after, rfl⟩ := h
  rw [List.append_assoc, StringPart.text_append] at hraw
  have hquote : Octet.quote.toNat < 0x80 := by decide
  exact (Utf8.isText_cut hquote (Utf8.isText_cut hquote hraw).2).1

/-! ### Tame trees -/

mutual

/-- Whether no surrogate stands alone in the strings and keys of a tree, its numbers are in range,
and arrays and objects are at most the given number of levels deep in it. -/
def isTame : Nat → Node → Bool
  | _, number n => n.number?.isSome
  | _, string body => !StringPart.hasLoneSurrogate body
  | 0, array .. => false
  | levels + 1, array elements _ => elementsTame levels elements
  | 0, object .. => false
  | levels + 1, object members _ => membersTame levels members
  | _, _ => true

/-- Whether every element is tame. -/
def elementsTame : Nat → List (Spaced Node) → Bool
  | _, [] => true
  | levels, e :: es => elementTame levels e && elementsTame levels es

/-- Whether an element is tame. -/
def elementTame : Nat → Spaced Node → Bool
  | levels, ⟨_, value, _⟩ => isTame levels value

/-- Whether every member is tame. -/
def membersTame : Nat → List (Entry Node) → Bool
  | _, [] => true
  | levels, m :: ms => memberTame levels m && membersTame levels ms

/-- Whether a member is tame. -/
def memberTame : Nat → Entry Node → Bool
  | levels, ⟨_, key, _, value, _⟩ => !StringPart.hasLoneSurrogate key && isTame levels value

end

theorem elementsTame_iff {levels : Nat} {es : List (Spaced Node)} :
    elementsTame levels es = true ↔ ∀ e ∈ es, e.value.isTame levels = true := by
  induction es with
  | nil => simp [elementsTame]
  | cons e es ih =>
    obtain ⟨before, value, after⟩ := e
    rw [elementsTame, elementTame, Bool.and_eq_true, ih, List.forall_mem_cons]

theorem membersTame_iff {levels : Nat} {ms : List (Entry Node)} :
    membersTame levels ms = true ↔ ∀ m ∈ ms,
      StringPart.hasLoneSurrogate m.key = false ∧ m.value.isTame levels = true := by
  induction ms with
  | nil => simp [membersTame]
  | cons m ms ih =>
    obtain ⟨before, key, colon, value, after⟩ := m
    rw [membersTame, memberTame, Bool.and_eq_true, ih, List.forall_mem_cons, Bool.and_eq_true,
      Bool.not_eq_true']

/-- The key of a member of a text is a text, unless a surrogate stands alone in it. -/
theorem isSome_decode?_key {raw : List UInt8} (hraw : Utf8.IsText raw) {m : Entry Node}
    (hm : IsMember m) (h : memberText m <:+: raw)
    (hlone : StringPart.hasLoneSurrogate m.key = false) :
    (StringPart.decode? m.key).isSome = true :=
  StringPart.isSome_decode? hm.key (isText_piece hraw ((infix_key m).trans h)) hlone

/-- A tame tree of a text is kept as a whole. -/
theorem isWhole_of_isTame {raw : List UInt8} (hraw : Utf8.IsText raw) {levels : Nat} {t : Node}
    (ht : t.isGrammatical = true) (h : t.text <:+: raw) (htame : t.isTame levels = true) :
    (Buffered.ofNode levels t).isWhole = true := by
  induction t using Node.induct generalizing levels with
  | null | bool => rfl
  | number n =>
    obtain ⟨x, hx⟩ := Option.isSome_iff_exists.1 htame
    rw [Buffered.ofNode, hx]
    rfl
  | string body =>
    have hlone : StringPart.hasLoneSurrogate body = false := by simpa [isTame] using htame
    have hspelled := (Bool.and_eq_true_iff.1 ht).1
    have hbody := StringPart.isSome_decode? hspelled (isText_piece hraw h) hlone
    obtain ⟨s, hs⟩ := Option.isSome_iff_exists.1 hbody
    rw [Buffered.ofNode, hs]
    rfl
  | array es ending ih =>
    cases levels with
    | zero => cases htame
    | succ levels =>
      obtain ⟨hes, gap, rfl, _⟩ := (isGrammatical_array es ending).1 ht
      rw [isTame, elementsTame_iff] at htame
      refine Buffered.array_isWhole_iff.2 ⟨fun e he => ?_, rfl⟩
      exact ih e he (hes e he).value ((infix_array he _).trans h) (htame e he)
  | object ms ending ih =>
    cases levels with
    | zero => cases htame
    | succ levels =>
      obtain ⟨hms, gap, rfl, _⟩ := (isGrammatical_object ms ending).1 ht
      rw [isTame, membersTame_iff] at htame
      refine Buffered.object_isWhole_iff.2 ⟨fun m hm => ?_, rfl⟩
      have hmember := (infix_object hm _).trans h
      obtain ⟨hlone, hvalue⟩ := htame m hm
      obtain ⟨left, right, hcolon, _⟩ := (hms m hm).colon
      refine ⟨isSome_decode?_key hraw (hms m hm) hmember hlone, by rw [hcolon]; rfl, ?_⟩
      exact ih m hm (hms m hm).value ((infix_value m).trans hmember) hvalue
  | broken rest => cases ht

/-- A tame tree of a text can be kept. -/
theorem kept_of_isTame {raw : List UInt8} (hraw : Utf8.IsText raw) {levels : Nat} {t : Node}
    (ht : t.isGrammatical = true) (h : t.text <:+: raw) (htame : t.isTame levels = true) :
    (Buffered.ofNode? levels t).isSome = true :=
  Buffered.isSome_ofNode?.2 (isWhole_of_isTame hraw ht h htame)

end Node

end Json

end MarketFeed
