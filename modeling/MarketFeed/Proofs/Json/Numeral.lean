import Mathlib.Tactic.SplitIfs
import MarketFeed.Json.Numeral
import MarketFeed.Proofs.Text.Digits

/-!
# Numerals there and back

`Numeral.isSpelled` says which numerals the grammar has.  Scanning finds such a numeral and no other
(`scan?_text`, `eq_of_scan?`), provided that what follows does not go on with it
(`Numeral.stops`).
-/

namespace MarketFeed

namespace Json

namespace Numeral

/-- Whether a numeral is one of the grammar. -/
def isSpelled (n : Numeral) : Bool :=
  Digits.isPlain n.whole && n.fraction.all (!·.isEmpty) && n.exponent.all (!·.digits.isEmpty)

/-- Whether no digit stands at the start of the octets. -/
def stopsDigits : List UInt8 → Bool
  | [] => true
  | b :: _ => (Digit.ofOctet? b).isNone

/-- Whether neither a digit nor a point stands at the start of the octets. -/
def stopsWhole : List UInt8 → Bool
  | [] => true
  | b :: _ => (Digit.ofOctet? b).isNone && b != Octet.point

/-- Whether nothing that a numeral could go on with stands at the start of the octets. -/
def stops : List UInt8 → Bool
  | [] => true
  | b :: _ => (Digit.ofOctet? b).isNone && b != Octet.point && b != Octet.smallE
    && b != Octet.capitalE

theorem stopsDigits_of_stopsWhole {s : List UInt8} (h : stopsWhole s = true) :
    stopsDigits s = true := by
  cases s with
  | nil => rfl
  | cons b s => exact (Bool.and_eq_true_iff.1 h).1

theorem stopsWhole_of_stops {s : List UInt8} (h : stops s = true) : stopsWhole s = true := by
  cases s with
  | nil => rfl
  | cons b s => exact (Bool.and_eq_true_iff.1 (Bool.and_eq_true_iff.1 h).1).1

/-! ### Digits -/

theorem takeDigits_append (ds : List Digit) {rest : List UInt8} (h : stopsDigits rest = true) :
    takeDigits (digitOctets ds ++ rest) = (ds, rest) := by
  induction ds with
  | nil =>
    cases rest with
    | nil => rfl
    | cons b rest =>
      rw [digitOctets, List.map_nil, List.nil_append, takeDigits, Option.isNone_iff_eq_none.1 h]
  | cons d ds ih =>
    rw [digitOctets, List.map_cons, List.cons_append, takeDigits, Digit.ofOctet?_toOctet]
    dsimp only
    rw [← digitOctets, ih]

theorem eq_of_takeDigits {s rest : List UInt8} {ds : List Digit}
    (h : takeDigits s = (ds, rest)) : s = digitOctets ds ++ rest := by
  induction s generalizing ds with
  | nil =>
    cases h
    rfl
  | cons b s ih =>
    rw [takeDigits] at h
    split at h
    · next d hd =>
      obtain ⟨rfl, rfl⟩ := Prod.mk.inj h
      rw [digitOctets, List.map_cons, List.cons_append, Digit.toOctet_of_ofOctet? hd,
        ← digitOctets, ← ih rfl]
    · cases h
      rfl

theorem someDigits?_append {ds : List Digit} (hd : ds.isEmpty = false) {rest : List UInt8}
    (h : stopsDigits rest = true) : someDigits? (digitOctets ds ++ rest) = some (ds, rest) := by
  rw [someDigits?, takeDigits_append ds h]
  cases ds with
  | nil => cases hd
  | cons d ds => rfl

theorem eq_of_someDigits? {s rest : List UInt8} {ds : List Digit}
    (h : someDigits? s = some (ds, rest)) :
    ds.isEmpty = false ∧ s = digitOctets ds ++ rest := by
  rw [someDigits?] at h
  split at h
  · cases h
  · next hne =>
    obtain hs := Option.some.inj h
    refine ⟨?_, eq_of_takeDigits hs⟩
    cases ds with
    | nil => exact absurd hs (hne rest)
    | cons d ds => rfl

theorem whole?_append {ds : List Digit} (hd : Digits.isPlain ds = true) {rest : List UInt8}
    (h : stopsDigits rest = true) : whole? (digitOctets ds ++ rest) = some (ds, rest) := by
  rw [whole?, takeDigits_append ds h]
  match ds, hd with
  | [d], _ => rfl
  | d :: d' :: ds, hd =>
    have : d ≠ Digit.zero := by simpa [Digits.isPlain] using hd
    exact if_neg this

theorem eq_of_whole? {s rest : List UInt8} {ds : List Digit} (h : whole? s = some (ds, rest)) :
    Digits.isPlain ds = true ∧ s = digitOctets ds ++ rest := by
  rw [whole?] at h
  split at h
  · cases h
  · next d d' ds' rest' hs =>
    split at h
    · cases h
    · next hd =>
      cases h
      exact ⟨by simp [Digits.isPlain, hd], eq_of_takeDigits hs⟩
  · next hnil hlong =>
    have hs := Option.some.inj h
    refine ⟨?_, eq_of_takeDigits hs⟩
    cases ds with
    | nil => exact absurd hs (hnil rest)
    | cons d ds =>
      cases ds with
      | nil => simp [Digits.isPlain]
      | cons d' ds => exact absurd hs (hlong d d' ds rest)

/-! ### Fractions and powers of ten -/

/-- The octets of a fraction, if there is one. -/
def fractionText : Option (List Digit) → List UInt8
  | none => []
  | some ds => Octet.point :: digitOctets ds

/-- The octets of a power of ten, if there is one. -/
def powerText : Option Exponent → List UInt8
  | none => []
  | some e => exponentText e

theorem text_eq (n : Numeral) : n.text = (if n.negative then [Octet.minus] else []) ++
    (digitOctets n.whole ++ (fractionText n.fraction ++ powerText n.exponent)) := by
  rw [text, List.append_assoc, List.append_assoc]
  rfl

theorem fraction?_append {f : Option (List Digit)} (hf : f.all (!·.isEmpty) = true)
    {rest : List UInt8} (h : stopsWhole rest = true) :
    fraction? (fractionText f ++ rest) = some (f, rest) := by
  cases f with
  | none =>
    cases rest with
    | nil => rfl
    | cons b rest => exact if_neg (by simpa using (Bool.and_eq_true_iff.1 h).2)
  | some ds =>
    have hd : ds.isEmpty = false := by simpa using hf
    rw [fractionText, List.cons_append, fraction?, if_pos rfl,
      someDigits?_append hd (stopsDigits_of_stopsWhole h)]
    rfl

theorem eq_of_fraction? {s rest : List UInt8} {f : Option (List Digit)}
    (h : fraction? s = some (f, rest)) :
    f.all (!·.isEmpty) = true ∧ s = fractionText f ++ rest := by
  rw [fraction?.eq_def] at h
  split at h
  · cases h
    exact ⟨rfl, rfl⟩
  · split at h
    · next hb =>
      obtain ⟨⟨ds, rest'⟩, hs, he⟩ := Option.map_eq_some_iff.1 h
      cases he
      obtain ⟨hd, rfl⟩ := eq_of_someDigits? hs
      exact ⟨by simp [hd], by rw [hb]; rfl⟩
    · cases h
      exact ⟨rfl, rfl⟩

/-- The octets of a sign, if there is one. -/
def signText : Option Bool → List UInt8
  | none => []
  | some false => [Octet.plus]
  | some true => [Octet.minus]

theorem exponentText_eq (e : Exponent) : exponentText e =
    (if e.capital then Octet.capitalE else Octet.smallE) ::
      (signText e.sign ++ digitOctets e.digits) := rfl

theorem toOctet_ne_sign (d : Digit) : d.toOctet ≠ Octet.plus ∧ d.toOctet ≠ Octet.minus := by
  decide +revert

theorem takeSign_append (sign : Option Bool) {ds : List Digit} (hd : ds.isEmpty = false)
    (rest : List UInt8) : takeSign (signText sign ++ (digitOctets ds ++ rest)) =
      (sign, digitOctets ds ++ rest) := by
  cases ds with
  | nil => cases hd
  | cons d ds =>
    match sign with
    | none =>
      obtain ⟨hp, hm⟩ := toOctet_ne_sign d
      rw [signText, List.nil_append, digitOctets, List.map_cons, List.cons_append, takeSign,
        if_neg hp, if_neg hm]
    | some false => rfl
    | some true => rfl

theorem eq_of_takeSign {s rest : List UInt8} {sign : Option Bool}
    (h : takeSign s = (sign, rest)) : s = signText sign ++ rest := by
  rw [takeSign.eq_def] at h
  split at h
  · cases h
    rfl
  · split_ifs at h with hp hm
    · cases h
      rw [hp]
      rfl
    · cases h
      rw [hm]
      rfl
    · cases h
      rfl

theorem exponent?_append {e : Option Exponent} (he : e.all (!·.digits.isEmpty) = true)
    {rest : List UInt8} (h : stops rest = true) :
    exponent? (powerText e ++ rest) = some (e, rest) := by
  cases e with
  | none =>
    cases rest with
    | nil => rfl
    | cons b rest =>
      refine if_neg ?_
      simp only [stops, Bool.and_eq_true, bne_iff_ne] at h
      rintro (hb | hb)
      · exact h.1.2 hb
      · exact h.2 hb
  | some e =>
    have hd : e.digits.isEmpty = false := by simpa using he
    rw [powerText, exponentText_eq, List.cons_append, exponent?, List.append_assoc,
      takeSign_append e.sign hd]
    dsimp only
    rw [someDigits?_append hd (stopsDigits_of_stopsWhole (stopsWhole_of_stops h))]
    obtain ⟨capital, sign, ds⟩ := e
    cases capital <;> rfl

theorem eq_of_exponent? {s rest : List UInt8} {e : Option Exponent}
    (h : exponent? s = some (e, rest)) :
    e.all (!·.digits.isEmpty) = true ∧ s = powerText e ++ rest := by
  rw [exponent?.eq_def] at h
  split at h
  · cases h
    exact ⟨rfl, rfl⟩
  · next b s =>
    split at h
    · next hb =>
      obtain ⟨⟨ds, rest'⟩, hs, he⟩ := Option.map_eq_some_iff.1 h
      cases he
      obtain ⟨hd, htail⟩ := eq_of_someDigits? hs
      refine ⟨by simp [hd], ?_⟩
      rw [powerText, exponentText_eq, List.cons_append, List.append_assoc]
      dsimp only
      rw [← htail, ← eq_of_takeSign rfl]
      rcases hb with rfl | rfl <;> rfl
    · cases h
      exact ⟨rfl, rfl⟩

/-! ### Numerals -/

theorem stopsWhole_power (e : Option Exponent) {rest : List UInt8} (h : stops rest = true) :
    stopsWhole (powerText e ++ rest) = true := by
  cases e with
  | none => exact stopsWhole_of_stops h
  | some e =>
    obtain ⟨capital, sign, ds⟩ := e
    cases capital <;> rfl

theorem stopsDigits_fraction (f : Option (List Digit)) {rest : List UInt8}
    (h : stopsWhole rest = true) : stopsDigits (fractionText f ++ rest) = true := by
  cases f with
  | none => exact stopsDigits_of_stopsWhole h
  | some ds => rfl

/-- The minus sign at the start of the octets, if there is one, and what follows it. -/
def takeMinus : List UInt8 → Bool × List UInt8
  | [] => (false, [])
  | b :: rest => if b = Octet.minus then (true, rest) else (false, b :: rest)

theorem scan?_eq (s : List UInt8) : scan? s =
    (whole? (takeMinus s).2).bind fun (whole, s₁) =>
      (fraction? s₁).bind fun (fraction, s₂) =>
        (exponent? s₂).bind fun (exponent, s₃) =>
          some (⟨(takeMinus s).1, whole, fraction, exponent⟩, s₃) := by
  cases s with
  | nil => rfl
  | cons b s =>
    rw [scan?, takeMinus]
    by_cases hb : b = Octet.minus
    · rw [if_pos hb]
      rfl
    · rw [if_neg hb]
      rfl

theorem takeMinus_append (negative : Bool) {ds : List Digit} (hd : Digits.isPlain ds = true)
    (rest : List UInt8) :
    takeMinus ((if negative then [Octet.minus] else []) ++ (digitOctets ds ++ rest)) =
      (negative, digitOctets ds ++ rest) := by
  cases ds with
  | nil => cases hd
  | cons d ds =>
    cases negative with
    | true => rfl
    | false => exact if_neg (toOctet_ne_sign d).2

theorem eq_of_takeMinus {s rest : List UInt8} {negative : Bool}
    (h : takeMinus s = (negative, rest)) :
    s = (if negative then [Octet.minus] else []) ++ rest := by
  rw [takeMinus.eq_def] at h
  split at h
  · cases h
    rfl
  · split_ifs at h with hb
    · cases h
      rw [hb]
      rfl
    · cases h
      rfl

/-- A numeral of the grammar is scanned up to what it cannot go on with. -/
theorem scan?_text {n : Numeral} (h : n.isSpelled = true) {rest : List UInt8}
    (hr : stops rest = true) : scan? (n.text ++ rest) = some (n, rest) := by
  obtain ⟨negative, whole, fraction, exponent⟩ := n
  simp only [isSpelled, Bool.and_eq_true] at h
  obtain ⟨⟨hw, hf⟩, he⟩ := h
  have hstop := stopsWhole_power exponent hr
  rw [text_eq, List.append_assoc, List.append_assoc, List.append_assoc, scan?_eq,
    takeMinus_append negative hw]
  dsimp only
  rw [whole?_append hw (stopsDigits_fraction fraction hstop), Option.bind_some,
    fraction?_append hf hstop, Option.bind_some, exponent?_append he hr]
  rfl

/-- The numeral that is scanned is one of the grammar, and stands at the start of the octets. -/
theorem eq_of_scan? {s rest : List UInt8} {n : Numeral} (h : scan? s = some (n, rest)) :
    n.isSpelled = true ∧ s = n.text ++ rest := by
  rw [scan?_eq] at h
  obtain ⟨⟨whole, s₁⟩, hw, h⟩ := Option.bind_eq_some_iff.1 h
  obtain ⟨⟨fraction, s₂⟩, hf, h⟩ := Option.bind_eq_some_iff.1 h
  obtain ⟨⟨exponent, s₃⟩, he, h⟩ := Option.bind_eq_some_iff.1 h
  cases h
  obtain ⟨hplain, hs⟩ := eq_of_whole? hw
  obtain ⟨hfraction, rfl⟩ := eq_of_fraction? hf
  obtain ⟨hexponent, rfl⟩ := eq_of_exponent? he
  constructor
  · rw [isSpelled, hplain, hfraction, hexponent]
    rfl
  · rw [text_eq, List.append_assoc, List.append_assoc, List.append_assoc]
    dsimp only
    rw [← hs]
    exact eq_of_takeMinus rfl

end Numeral

end Json

end MarketFeed
