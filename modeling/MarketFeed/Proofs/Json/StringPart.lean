import Mathlib.Tactic.SplitIfs
import MarketFeed.Json.StringPart
import MarketFeed.Proofs.Text.Utf8

/-!
# String literals there and back

`StringPart.isSpelled` says which parts may stand between quotes.  Scanning finds such parts and no
others (`scan?_octets`, `eq_of_scan?`), and the parts that are written for a text stand for it
(`decode?_encode`).
-/

namespace MarketFeed

namespace Json

namespace StringPart

/-- Whether a part may stand in a string literal. -/
def isSpelled : StringPart → Bool
  | octet b => b != Octet.quote && b != Octet.backslash && decide (0x20 ≤ b)
  | letter b => (meaning? b).isSome
  | code a b c d => [a, b, c, d].all (hexValue? · |>.isSome)

/-! ### Scanning -/

theorem letter_ne {c : UInt8} (h : (meaning? c).isSome = true) : c ≠ Octet.smallU := by
  rintro rfl
  exact absurd h (by decide)

theorem scan?_quote (s : List UInt8) : scan? (Octet.quote :: s) = some ([], s) := by
  rw [scan?.eq_def]
  exact if_pos rfl

theorem scan?_part (p : StringPart) (h : p.isSpelled = true) (s : List UInt8) :
    scan? (p.octets ++ s) = (scan? s).map fun (body, rest) => (p :: body, rest) := by
  cases p with
  | octet b =>
    simp only [isSpelled, Bool.and_eq_true, bne_iff_ne, decide_eq_true_eq] at h
    obtain ⟨⟨hq, hb⟩, hc⟩ := h
    rw [octets, List.singleton_append, scan?.eq_def]
    dsimp only
    rw [if_neg hq, if_neg hb, if_neg (UInt8.not_lt.2 hc)]
  | letter c =>
    rw [octets, List.cons_append, List.singleton_append, scan?.eq_def]
    dsimp only
    rw [if_neg (by decide), if_pos rfl, if_neg (letter_ne h)]
    exact if_pos h
  | code a b c d =>
    simp only [octets, List.cons_append, List.nil_append]
    rw [scan?, if_neg (by decide), if_pos rfl, if_pos rfl]
    exact if_pos h

/-- Spelled parts and a quote are scanned up to the quote. -/
theorem scan?_octets {body : List StringPart} (h : body.all isSpelled = true)
    (rest : List UInt8) :
    scan? (body.flatMap octets ++ Octet.quote :: rest) = some (body, rest) := by
  induction body with
  | nil => exact scan?_quote rest
  | cons p body ih =>
    rw [List.all_cons, Bool.and_eq_true] at h
    rw [List.flatMap_cons, List.append_assoc, scan?_part p h.1, ih h.2]
    rfl

/-- A part stands before what is scanned behind it. -/
theorem eq_of_scan?_part {p : StringPart} {tail rest : List UInt8} {body : List StringPart}
    (hp : p.isSpelled = true)
    (ih : ∀ {body rest}, scan? tail = some (body, rest) →
      body.all isSpelled = true ∧ tail = body.flatMap octets ++ Octet.quote :: rest)
    (h : ((scan? tail).map fun (body, rest) => (p :: body, rest)) = some (body, rest)) :
    body.all isSpelled = true ∧
      p.octets ++ tail = body.flatMap octets ++ Octet.quote :: rest := by
  obtain ⟨⟨body', rest'⟩, htail, he⟩ := Option.map_eq_some_iff.1 h
  obtain ⟨rfl, rfl⟩ := Prod.mk.inj he
  obtain ⟨hall, rfl⟩ := ih htail
  constructor
  · rw [List.all_cons, hp, hall]
    rfl
  · rw [List.flatMap_cons, List.append_assoc]

/-- What is scanned is spelled, and stands with a quote behind it at the start of the octets. -/
theorem eq_of_scan? {s : List UInt8} {body : List StringPart} {rest : List UInt8}
    (h : scan? s = some (body, rest)) :
    body.all isSpelled = true ∧ s = body.flatMap octets ++ Octet.quote :: rest := by
  fun_induction scan? s generalizing body rest with
  | case1 | case3 | case5 | case6 | case8 | case9 => cases h
  | case2 =>
    cases h
    exact ⟨rfl, rfl⟩
  | case4 a b c d s hex _ ih => exact eq_of_scan?_part (p := code a b c d) hex ih h
  | case7 c s _ hc _ ih => exact eq_of_scan?_part (p := letter c) hc ih h
  | case10 b s hq hb hc ih =>
    refine eq_of_scan?_part (p := octet b) ?_ ih h
    simp only [isSpelled, Bool.and_eq_true, bne_iff_ne, decide_eq_true_eq]
    exact ⟨⟨hq, hb⟩, UInt8.not_lt.1 hc⟩

/-- A string literal and what follows it. -/
theorem text_append (body : List StringPart) (rest : List UInt8) :
    text body ++ rest = Octet.quote :: (body.flatMap octets ++ Octet.quote :: rest) := by
  simp [text]

/-! ### Meaning -/

theorem meaningOf?_octets (bytes : List UInt8) (body : List StringPart) :
    meaningOf? (bytes.map octet ++ body) = (meaningOf? body).map (bytes ++ ·) := by
  induction bytes with
  | nil => simp
  | cons b bytes ih => simp [meaningOf?, ih, Function.comp_def]

theorem meaningOf?_letter {b c : UInt8} (h : meaning? b = some c) (body : List StringPart) :
    meaningOf? (letter b :: body) = (meaningOf? body).map ([c] ++ ·) := by
  rw [meaningOf?, h]
  cases meaningOf? body <;> rfl

theorem unit_control : ∀ n < 0x20, unit 0x30 0x30 (hexOctet (n / 16)) (hexOctet (n % 16)) = n := by
  decide

theorem meaningOf?_control {n : Nat} (h : n < 0x20) (body : List StringPart) :
    meaningOf? (code 0x30 0x30 (hexOctet (n / 16)) (hexOctet (n % 16)) :: body) =
      (meaningOf? body).map (String.utf8EncodeChar (Char.ofNat n) ++ ·) := by
  have hu := unit_control n h
  have high : isHigh n = false := by
    rw [isHigh, decide_eq_false_iff_not]
    omega
  have low : isLow n = false := by
    rw [isLow, decide_eq_false_iff_not]
    omega
  rw [meaningOf?.eq_def]
  simp [hu, high, low]

/-- What is written for a character stands for its octets. -/
theorem meaningOf?_ofChar (c : Char) (body : List StringPart) :
    meaningOf? (ofChar c ++ body) = (meaningOf? body).map (String.utf8EncodeChar c ++ ·) := by
  rw [ofChar]
  split_ifs with h₁ h₂ h₃ h₄ h₅ h₆ h₇ h₈
  · subst h₁; exact meaningOf?_letter rfl body
  · subst h₂; exact meaningOf?_letter rfl body
  · subst h₃; exact meaningOf?_letter rfl body
  · subst h₄; exact meaningOf?_letter rfl body
  · subst h₅; exact meaningOf?_letter rfl body
  · subst h₆; exact meaningOf?_letter rfl body
  · subst h₇; exact meaningOf?_letter rfl body
  · rw [List.singleton_append, meaningOf?_control h₈, Char.ofNat_toNat]
  · exact meaningOf?_octets _ body

/-- The parts that are written for a text stand for its octets. -/
theorem meaningOf?_encode (s : String) : meaningOf? (encode s) = some (MarketFeed.octets s) := by
  rw [encode, MarketFeed.octets, Utf8.encode]
  induction s.toList with
  | nil => rfl
  | cons c cs ih =>
    rw [List.flatMap_cons, meaningOf?_ofChar, ih, List.flatMap_cons]
    rfl

/-- The parts that are written for a text stand for it. -/
@[simp] theorem decode?_encode (s : String) : decode? (encode s) = some s := by
  simp [decode?, meaningOf?_encode]

/-! ### Lengths -/

theorem length_encodeChar_le (c : Char) : (String.utf8EncodeChar c).length ≤ 4 := by
  rw [String.length_utf8EncodeChar]
  exact Char.utf8Size_le_four c

/-- Octets that some parts stand for, before what others do. -/
theorem length_append_le (front : List UInt8) (parts : List StringPart) {s : List UInt8}
    {body : List StringPart} (hfront : front.length ≤ (parts.flatMap octets).length)
    (hbody : ∀ {s}, meaningOf? body = some s → s.length ≤ (body.flatMap octets).length)
    (h : (meaningOf? body).map (front ++ ·) = some s) :
    s.length ≤ ((parts ++ body).flatMap octets).length := by
  obtain ⟨s, hs, rfl⟩ := Option.map_eq_some_iff.1 h
  rw [List.flatMap_append, List.length_append, List.length_append]
  exact Nat.add_le_add hfront (hbody hs)

/-- No parts stand for more octets than they have. -/
theorem length_meaning_le {body : List StringPart} {s : List UInt8}
    (h : meaningOf? body = some s) : s.length ≤ (body.flatMap octets).length := by
  fun_induction meaningOf? body generalizing s with
  | case1 =>
    cases h
    exact Nat.le_refl _
  | case2 b body ih => exact length_append_le [b] [octet b] (by simp [octets]) ih h
  | case3 b body ih =>
    obtain ⟨c, hc, _⟩ := Option.bind_eq_some_iff.1 h
    refine length_append_le [c] [letter b] (by simp [octets]) ih ?_
    rw [← meaningOf?_letter hc, meaningOf?]
    exact h
  | case4 a b c d =>
    rename_i a' b' c' d' body _ _ _ ih
    refine length_append_le _ [code a b c d, code a' b' c' d'] ?_ ih h
    exact Nat.le_trans (length_encodeChar_le _) (by simp [octets])
  | case5 | case6 | case7 => cases h
  | case8 a b c d body =>
    rename_i ih
    refine length_append_le _ [code a b c d] ?_ ih h
    exact Nat.le_trans (length_encodeChar_le _) (by simp [octets])

/-- A text is shorter than the literal that stands for it. -/
theorem length_decode_lt {body : List StringPart} {s : String} (h : decode? body = some s) :
    (MarketFeed.octets s).length < (text body).length := by
  obtain ⟨bytes, hbytes, h⟩ := Option.bind_eq_some_iff.1 h
  obtain ⟨cs, hcs, h⟩ := Option.bind_eq_some_iff.1 h
  cases h
  rw [octets_of_decode? hcs]
  have := length_meaning_le hbytes
  rw [text, List.cons_append, List.length_cons, List.length_append]
  omega

end StringPart

end Json

end MarketFeed
