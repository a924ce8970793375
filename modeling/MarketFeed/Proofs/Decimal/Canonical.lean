import MarketFeed.Decimal.Reading
import MarketFeed.Proofs.Text.Blank
import MarketFeed.Proofs.Text.Digits

/-!
# Decimals in canonical form

A text is in canonical form if it has a sign only for a number below zero, no superfluous zeros
before the point, and after it as many digits as fit (`Decimal.IsCanonical`).  Such a text is read
without rounding and written as it was (`Decimal.text_of_canonical`).  A decimal is written in this
form and read back (`Decimal.read_text`), unless it is a zero with a sign.
-/

namespace MarketFeed

namespace Decimal

/-- The characters of a decimal with the given digits before and after the point. -/
def spell (negative : Bool) (whole places : List Digit) : List Char :=
  (if negative then ['-'] else []) ++ Digits.chars whole
    ++ (if places = [] then [] else '.' :: Digits.chars places)

/-- A text in canonical form: an optional minus sign, digits without superfluous zeros, and up to 28
digits behind a point, for a number whose digits fit and that is not a negative zero. -/
def IsCanonical (s : String) : Prop :=
  ∃ negative whole places, s.toList = spell negative whole places ∧
    Digits.isPlain whole = true ∧ places.length ≤ maxScale ∧
    Digits.value (whole ++ places) < mantissaBound ∧
    (negative = true → Digits.value (whole ++ places) ≠ 0)

/-! ### Reading digits -/

/-- What has been read so far of a text whose digits all fit. -/
structure Scan.Has (s : Scan) (negative : Bool) (mantissa scale : Nat) (pointSeen : Bool) :
    Prop where
  negative : s.value.negative = negative
  mantissa : s.value.mantissa = mantissa
  scale : s.value.scale = scale
  pointSeen : s.pointSeen = pointSeen

theorem push?_of_lt {d : Decimal} {digit : Digit} {isPlace : Bool}
    (hvalue : d.mantissa * 10 + digit.val < mantissaBound)
    (hscale : (if isPlace then d.scale + 1 else d.scale) ≤ maxScale) :
    d.push? digit isPlace = some ⟨d.negative, d.mantissa * 10 + digit.val,
      if isPlace then d.scale + 1 else d.scale, hvalue, hscale⟩ := by
  rw [push?, ofParts?, dif_pos ⟨hvalue, hscale⟩]

/-- A digit that fits is read into the mantissa. -/
theorem run_digit {s : Scan} {negative pointSeen : Bool} {m k : Nat}
    (h : s.Has negative m k pointSeen) {d : Digit} (hvalue : m * 10 + d.val < mantissaBound)
    (hscale : pointSeen = true → k < maxScale) (cs : List Char) :
    ∃ s', Scan.Has s' negative (m * 10 + d.val) (if pointSeen then k + 1 else k) pointSeen ∧
      s'.digitSeen = true ∧ s.run (d.toChar :: cs) = s'.run cs := by
  obtain ⟨rfl, rfl, rfl, rfl⟩ := h
  have hfull : ¬s.full = true := by
    intro hfull
    obtain ⟨hpoint, hmax⟩ := Bool.and_eq_true_iff.1 hfull
    have := hscale hpoint
    rw [beq_iff_eq] at hmax
    omega
  have hplaces : (if s.pointSeen then s.value.scale + 1 else s.value.scale) ≤ maxScale := by
    split
    · next hpoint => exact hscale hpoint
    · exact s.value.scale_le
  refine ⟨s.push ⟨s.value.negative, s.value.mantissa * 10 + d.val, _, hvalue, hplaces⟩,
    ⟨rfl, rfl, rfl, rfl⟩, rfl, ?_⟩
  rw [Scan.run, if_neg hfull, Digit.ofChar?_toChar]
  dsimp only
  rw [push?_of_lt hvalue hplaces]

/-- Digits that fit are read into the mantissa, one after the other. -/
theorem run_digits {s : Scan} {negative pointSeen : Bool} {m k : Nat}
    (h : s.Has negative m k pointSeen) {ds : List Digit}
    (hvalue : Digits.valueFrom m ds < mantissaBound)
    (hscale : pointSeen = true → k + ds.length ≤ maxScale) (cs : List Char) :
    ∃ s', Scan.Has s' negative (Digits.valueFrom m ds)
        (if pointSeen then k + ds.length else k) pointSeen ∧
      (s.digitSeen = true ∨ ds ≠ [] → s'.digitSeen = true) ∧
      s.run (Digits.chars ds ++ cs) = s'.run cs := by
  induction ds generalizing s m k with
  | nil =>
    refine ⟨s, ?_, fun hseen => hseen.resolve_right (fun hne => hne rfl), rfl⟩
    rw [List.length_nil, Nat.add_zero, ite_self]
    exact h
  | cons d ds ih =>
    rw [Digits.valueFrom_cons] at hvalue
    have hd := Digits.le_valueFrom (m * 10 + d.val) ds
    rw [List.length_cons] at hscale
    obtain ⟨s₁, h₁, hseen₁, hrun₁⟩ := run_digit h (d := d) (by omega)
      (fun hpoint => by have := hscale hpoint; omega) (Digits.chars ds ++ cs)
    obtain ⟨s', h', hseen', hrun'⟩ := ih h₁ hvalue (fun hpoint => by
      have := hscale hpoint
      rw [if_pos hpoint]
      omega)
    refine ⟨s', ?_, fun _ => hseen' (Or.inl hseen₁), ?_⟩
    · rw [Digits.valueFrom_cons, List.length_cons]
      cases pointSeen with
      | true =>
        rw [if_pos rfl, if_pos rfl] at h'
        rw [if_pos rfl, Nat.add_comm ds.length, ← Nat.add_assoc]
        exact h'
      | false => exact h'
    · rw [Digits.chars, List.map_cons, List.cons_append]
      exact hrun₁.trans hrun'

/-- The first point only says that places follow. -/
theorem run_point {s : Scan} {negative : Bool} {m k : Nat} (h : s.Has negative m k false)
    (cs : List Char) :
    ∃ s', Scan.Has s' negative m k true ∧ s'.digitSeen = s.digitSeen ∧
      s.run ('.' :: cs) = s'.run cs := by
  obtain ⟨rfl, rfl, rfl, hpoint⟩ := h
  have hfull : ¬s.full = true := by
    rw [Scan.full, hpoint]
    exact Bool.false_ne_true
  have hdigit : Digit.ofChar? '.' = none := by decide
  refine ⟨{ s with pointSeen := true }, ⟨rfl, rfl, rfl, rfl⟩, rfl, ?_⟩
  rw [Scan.run, if_neg hfull, hdigit]
  dsimp only
  rw [if_pos ⟨rfl, hpoint⟩]

theorem has_begin (negative : Bool) : (Scan.begin negative).Has negative 0 0 false :=
  ⟨rfl, rfl, rfl, rfl⟩

theorem plainZero_eq {d : Decimal} (h : d.negative = true → d.mantissa ≠ 0) : d.plainZero = d := by
  obtain ⟨negative, m, k, hm, hk⟩ := d
  cases negative with
  | false => rfl
  | true =>
    have hne : (m != 0) = true := by simpa using h rfl
    simp [plainZero, hne]

theorem run_nil {s : Scan} {negative pointSeen : Bool} {m k : Nat}
    (h : s.Has negative m k pointSeen) (hseen : s.digitSeen = true)
    (hzero : negative = true → m ≠ 0) :
    ∃ d : Decimal, s.run [] = .ok d ∧ d.negative = negative ∧ d.mantissa = m ∧ d.scale = k := by
  obtain ⟨rfl, rfl, rfl, rfl⟩ := h
  refine ⟨s.value, ?_, rfl, rfl, rfl⟩
  rw [Scan.run, if_pos hseen, plainZero_eq hzero]

/-- The digits of a text in canonical form are read as they are. -/
theorem run_spell (negative : Bool) {whole places : List Digit} (hwhole : whole ≠ [])
    (hplaces : places.length ≤ maxScale)
    (hvalue : Digits.value (whole ++ places) < mantissaBound)
    (hzero : negative = true → Digits.value (whole ++ places) ≠ 0) :
    ∃ d : Decimal, (Scan.begin negative).run (spell false whole places) = .ok d ∧
      d.negative = negative ∧ d.mantissa = Digits.value (whole ++ places) ∧
      d.scale = places.length := by
  rw [Digits.value_append] at hvalue hzero ⊢
  have hfits := Nat.lt_of_le_of_lt (Digits.le_valueFrom (Digits.value whole) places) hvalue
  obtain ⟨s₁, h₁, hseen₁, hrun₁⟩ := run_digits (has_begin negative) hfits nofun
    (if places = [] then [] else '.' :: Digits.chars places)
  have h₁ : s₁.Has negative (Digits.value whole) 0 false := h₁
  have hrun : (Scan.begin negative).run (spell false whole places) =
      s₁.run (if places = [] then [] else '.' :: Digits.chars places) := hrun₁
  rw [hrun]
  by_cases hp : places = []
  · subst hp
    exact run_nil h₁ (hseen₁ (Or.inr hwhole)) hzero
  · rw [if_neg hp]
    obtain ⟨s₂, h₂, hseen₂, hrun₂⟩ := run_point h₁ (Digits.chars places)
    obtain ⟨s₃, h₃, hseen₃, hrun₃⟩ := run_digits h₂ hvalue
      (fun _ => by rwa [Nat.zero_add]) []
    rw [List.append_nil] at hrun₃
    rw [hrun₂, hrun₃]
    rw [if_pos rfl, Nat.zero_add] at h₃
    exact run_nil h₃ (hseen₃ (Or.inr hp)) hzero

theorem plain_of_ne {c : Char} (hminus : c ≠ '-') (hplus : c ≠ '+') (cs : List Char) :
    plain (c :: cs) = (Scan.begin false).run (c :: cs) := by
  rw [plain.eq_def]
  split
  · next h => cases h
  · next h => exact absurd (List.cons.inj h).1 hminus
  · next h => exact absurd (List.cons.inj h).1 hplus
  · rfl

theorem plain_spell (negative : Bool) {whole : List Digit} (hwhole : whole ≠ [])
    (places : List Digit) :
    plain (spell negative whole places) =
      (Scan.begin negative).run (spell false whole places) := by
  cases negative with
  | true => rfl
  | false =>
    cases whole with
    | nil => exact absurd rfl hwhole
    | cons d ds =>
      obtain ⟨hminus, hplus⟩ := Digit.toChar_ne_sign d
      exact plain_of_ne hminus hplus _

/-! ### Writing digits -/

/-- The digits of a mantissa are those that spell it before and after the point. -/
theorem digits_eq {d : Decimal} {whole places : List Digit} (hwhole : Digits.isPlain whole = true)
    (hmantissa : d.mantissa = Digits.value (whole ++ places)) (hscale : d.scale = places.length) :
    d.digits = whole ++ places := by
  unfold digits
  rw [hmantissa, hscale]
  cases whole with
  | nil => cases hwhole
  | cons e es =>
    obtain hplain | ⟨rfl, hne⟩ := Digits.isPlain_or_zero e (es ++ places)
    · have hlen : places.length + 1 - (e :: (es ++ places)).length = 0 := by
        rw [List.length_cons, List.length_append]
        omega
      rw [List.cons_append, Digits.ofNat_value hplain]
      dsimp only
      rw [hlen]
      rfl
    · have hes : es = [] := by simpa [Digits.isPlain] using hwhole
      subst hes
      exact (Digits.padded_ofNat_value (List.cons_ne_nil _ places)).2

theorem chars_eq {d : Decimal} {whole places : List Digit} (hwhole : Digits.isPlain whole = true)
    (hmantissa : d.mantissa = Digits.value (whole ++ places)) (hscale : d.scale = places.length) :
    d.chars = spell d.negative whole places := by
  unfold chars spell
  have hchars : Digits.chars d.digits = Digits.chars whole ++ Digits.chars places := by
    rw [digits_eq hwhole hmantissa hscale, Digits.chars, List.map_append]
    rfl
  have hlen : (Digits.chars whole ++ Digits.chars places).length - d.scale =
      (Digits.chars whole).length := by
    rw [List.length_append, hscale, Digits.chars, Digits.chars, List.length_map, List.length_map]
    omega
  rw [hchars]
  dsimp only
  rw [hlen, List.take_left, List.drop_left, hscale]
  cases places with
  | nil => rfl
  | cons e es => rfl

/-- A decimal in canonical form is read, and written as it was. -/
theorem text_of_canonical {s : String} (h : IsCanonical s) :
    ∃ d, read s = .ok d ∧ d.text = s := by
  obtain ⟨negative, whole, places, hs, hwhole, hplaces, hvalue, hzero⟩ := h
  obtain ⟨d, hrun, hnegative, hmantissa, hscale⟩ :=
    run_spell negative (Digits.ne_nil_of_isPlain hwhole) hplaces hvalue hzero
  refine ⟨d, ?_, ?_⟩
  · rw [read, readChars, hs, plain_spell negative (Digits.ne_nil_of_isPlain hwhole), hrun]
  · rw [text, chars_eq hwhole hmantissa hscale, hnegative, ← hs, String.ofList_toList]

/-! ### Reading what was written -/

theorem value_digits (d : Decimal) : Digits.value d.digits = d.mantissa := by
  rw [digits, Digits.value_replicate_append, Digits.value_ofNat]

theorem length_digits (d : Decimal) : d.scale < d.digits.length := by
  rw [digits, List.length_append, List.length_replicate]
  omega

/-- The digits before the point have no superfluous zeros: they are the first digits of the
mantissa, or a lone zero before places that the mantissa does not fill. -/
theorem isPlain_take_digits (d : Decimal) :
    Digits.isPlain (d.digits.take (d.digits.length - d.scale)) = true := by
  have hlen := length_digits d
  -- Either the mantissa reaches beyond the point, or a lone zero stands before it.
  by_cases hfill : d.scale < (Digits.ofNat d.mantissa).length
  · have hdigits : d.digits = Digits.ofNat d.mantissa := by
      rw [digits, show d.scale + 1 - (Digits.ofNat d.mantissa).length = 0 by omega]
      rfl
    rw [hdigits] at hlen ⊢
    exact Digits.isPlain_take_ofNat d.mantissa (by omega)
  · obtain ⟨k, hk⟩ : ∃ k, d.scale + 1 - (Digits.ofNat d.mantissa).length = k + 1 :=
      ⟨d.scale - (Digits.ofNat d.mantissa).length, by omega⟩
    have hdigits : d.digits = Digit.zero :: (List.replicate k Digit.zero
        ++ Digits.ofNat d.mantissa) := by
      rw [digits, hk, List.replicate_succ]
      rfl
    have hone : d.digits.length - d.scale = 1 := by
      rw [hdigits, List.length_cons, List.length_append, List.length_replicate]
      omega
    rw [hone, hdigits, List.take_succ_cons, List.take_zero]
    rfl

/-- A decimal is written with its places behind the point, and no superfluous zeros before it. -/
theorem chars_eq_spell (d : Decimal) :
    ∃ whole places, d.chars = spell d.negative whole places ∧ Digits.isPlain whole = true ∧
      places.length = d.scale ∧ whole ++ places = d.digits := by
  have hlen := length_digits d
  have hplaces : (d.digits.drop (d.digits.length - d.scale)).length = d.scale := by
    rw [List.length_drop]
    omega
  refine ⟨d.digits.take (d.digits.length - d.scale), d.digits.drop (d.digits.length - d.scale),
    ?_, ?_, hplaces, List.take_append_drop _ _⟩
  · have hempty : d.digits.drop (d.digits.length - d.scale) = [] ↔ d.scale = 0 := by
      rw [← List.length_eq_zero_iff, hplaces]
    unfold chars spell
    simp only [Digits.chars, List.length_map, List.map_take, List.map_drop, hempty]
  · exact isPlain_take_digits d

/-- A zero with a minus sign. -/
def IsNegativeZero (d : Decimal) : Prop := d.negative = true ∧ d.mantissa = 0

instance (d : Decimal) : Decidable d.IsNegativeZero := inferInstanceAs (Decidable (_ ∧ _))

/-- A decimal is read back from its text, unless it is a negative zero. -/
theorem read_text {d : Decimal} (h : ¬d.IsNegativeZero) : read d.text = .ok d := by
  obtain ⟨whole, places, hchars, hwhole, hscale, hdigits⟩ := chars_eq_spell d
  have hvalue : Digits.value (whole ++ places) = d.mantissa := by rw [hdigits, value_digits]
  have hzero (hnegative : d.negative = true) : Digits.value (whole ++ places) ≠ 0 := by
    rw [hvalue]
    exact fun hmantissa => h ⟨hnegative, hmantissa⟩
  have hne := Digits.ne_nil_of_isPlain hwhole
  obtain ⟨d', hrun, hnegative', hmantissa', hscale'⟩ :=
    run_spell d.negative hne (hscale ▸ d.scale_le) (hvalue ▸ d.mantissa_lt) hzero
  have heq : d' = d := by
    obtain ⟨negative, mantissa, scale, hm, hs⟩ := d
    obtain ⟨negative', mantissa', scale', hm', hs'⟩ := d'
    obtain rfl : negative' = negative := hnegative'
    obtain rfl : mantissa' = mantissa := hmantissa'.trans hvalue
    obtain rfl : scale' = scale := hscale'.trans hscale
    rfl
  rw [read, readChars, text, String.toList_ofList, hchars, plain_spell d.negative hne, hrun, heq]

/-- No decimal is written as blanks. -/
theorem trim_text_ne_nil (d : Decimal) : Text.trim d.text.toList ≠ [] := by
  obtain ⟨whole, places, hchars, hwhole, _⟩ := chars_eq_spell d
  rw [text, String.toList_ofList, hchars, spell]
  cases whole with
  | nil => cases hwhole
  | cons e es =>
    cases d.negative with
    | true => exact Text.trim_ne_nil (by decide) _
    | false => exact Text.trim_ne_nil (Text.isBlank_toChar e) _

end Decimal

end MarketFeed
