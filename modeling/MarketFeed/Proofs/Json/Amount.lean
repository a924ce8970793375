import MarketFeed.Proofs.Binary64.Text
import MarketFeed.Proofs.Json.Raw

/-!
# Amounts sent as numbers

An amount that a decimal can be worth is read exactly from every text that spells it in plain
notation.  A number that spells it is read by way of an integer of 64 bits or of a double precision
number, and keeps its worth exactly if it is such an integer or is what the text of that double
precision number says (`Json.Numeral.amount_laws`).
-/

namespace MarketFeed

namespace Json

namespace Numeral

/-! ### What a numeral spells -/

/-- All digits of a numeral. -/
def digits (n : Numeral) : List Digit := n.whole ++ n.fraction.getD []

/-- The power of ten at the last digit. -/
def power (n : Numeral) : ℤ := (n.exponent.map tens).getD 0 - (n.fraction.getD []).length

/-- The number that a numeral spells, but for its sign. -/
def magnitude (n : Numeral) : ℚ := Digits.value n.digits * 10 ^ n.power

/-- The number that a numeral spells. -/
def worth (n : Numeral) : ℚ := Decimal.signFactor n.negative * n.magnitude

/-- An integer of 64 bits. -/
structure IsWord (n : Numeral) : Prop where
  isWhole : n.isWhole = true
  range : if n.negative then 0 < Digits.value n.whole ∧ Digits.value n.whole ≤ UInt64.size / 2
    else Digits.value n.whole < UInt64.size

/-- The text of the double precision reading says a number in range, which is rounded to the given
one. -/
def ReadsDouble (n : Numeral) (v : ℚ) : Prop :=
  ∃ x, n.real? = some x ∧ Decimal.InRange x.printed ∧ Decimal.rounded x.printed = v

/-- Up to fifteen digits with a small power of ten. -/
structure IsShort (n : Numeral) : Prop where
  lt : Digits.value n.digits < 10 ^ 15
  low : -22 ≤ n.power
  high : n.power ≤ 22

variable {n : Numeral}

theorem magnitude_nonneg (n : Numeral) : 0 ≤ n.magnitude := by
  unfold magnitude
  positivity

theorem magnitude_of_isWhole (h : n.isWhole = true) : n.magnitude = Digits.value n.whole := by
  obtain ⟨hfraction, hexponent⟩ := Bool.and_eq_true_iff.1 h
  rw [magnitude, digits, power, Option.isNone_iff_eq_none.1 hfraction,
    Option.isNone_iff_eq_none.1 hexponent]
  simp

/-! ### The double precision reading -/

/-- A significand takes all digits that 64 bits hold. -/
theorem absorb_eq {m : Nat} {ds : List Digit} (h : Digits.valueFrom m ds < UInt64.size) :
    absorb m ds = (Digits.valueFrom m ds, ds.length) := by
  induction ds generalizing m with
  | nil => rfl
  | cons d ds ih =>
    rw [Digits.valueFrom_cons] at h ⊢
    rw [absorb, if_pos (Nat.lt_of_le_of_lt (Digits.le_valueFrom _ ds) h), ih h]
    rfl

theorem real?_eq (h : Digits.value n.digits < UInt64.size) :
    n.real? = (Binary64.scaled? (Digits.value n.digits) n.power).map (·.withSign n.negative) := by
  rw [digits, Digits.value_append] at h
  have hwhole : absorb 0 n.whole = (Digits.value n.whole, n.whole.length) :=
    absorb_eq (Nat.lt_of_le_of_lt (Digits.le_valueFrom _ _) h)
  rw [real?, hwhole]
  dsimp only
  rw [absorb_eq h, digits, Digits.value_append, power]
  dsimp only
  congr 2
  rw [Nat.sub_self]
  push_cast
  ring

theorem of_real? {x : Binary64} (h : n.real? = some x) : x.IsNormal ∧ x.negative = n.negative := by
  obtain ⟨y, hy, rfl⟩ := Option.map_eq_some_iff.1 h
  obtain ⟨hlt, hleast, hfull⟩ := Binary64.isNormal_of_scaled? hy
  exact ⟨⟨hlt, hleast, hfull⟩, rfl⟩

theorem printed_withSign (x : Binary64) (negative : Bool) :
    (x.withSign negative).printed = x.printed := rfl

/-- A short numeral is what the text of its double precision reading says. -/
theorem exists_printed (h : n.IsShort) : ∃ x, n.real? = some x ∧ x.printed = n.magnitude := by
  rw [real?_eq (lt_trans h.lt (by decide))]
  rcases Nat.eq_zero_or_pos (Digits.value n.digits) with hzero | hpos
  · refine ⟨(Binary64.zero false).withSign n.negative, ?_, ?_⟩
    · rw [hzero]
      rfl
    · rw [magnitude, hzero, Nat.cast_zero, zero_mul]
      rfl
  · obtain ⟨x, hx, hnormal, hcovers⟩ :=
      Binary64.exists_scaled? hpos (lt_trans h.lt (by decide)) h.low h.high
    have hfull : 2 ^ 52 ≤ x.significand := by
      refine Binary64.full_of_covers hnormal hcovers ?_
      have hone : (1 : ℚ) ≤ Digits.value n.digits := by exact_mod_cast hpos
      calc (2 : ℚ) ^ 53 * 2 ^ Binary64.minExponent
          = 2 ^ (53 + Binary64.minExponent) := by
            rw [zpow_add₀ two_ne_zero]
            norm_num
        _ ≤ 2 ^ (-80 : ℤ) := zpow_le_zpow_right₀ one_le_two (by decide)
        _ < 10 ^ (-22 : ℤ) := by norm_num
        _ ≤ 10 ^ n.power := zpow_le_zpow_right₀ (by norm_num) h.low
        _ ≤ Digits.value n.digits * 10 ^ n.power := le_mul_of_one_le_left (by positivity) hone
    refine ⟨x.withSign n.negative, by rw [hx, Option.map_some], ?_⟩
    have hne : x.significand ≠ 0 := (lt_of_lt_of_le (by decide) hfull).ne'
    rw [printed_withSign, Binary64.printed, if_neg hne,
      Binary64.worth_shortest hnormal hfull h.lt hcovers, magnitude]

theorem exists_magnitude (h : Decimal.IsRepresentable n.worth) :
    ∃ d : Decimal, d.magnitude = n.magnitude := by
  obtain ⟨m, k, hm, hk, he⟩ := (Decimal.isRepresentable_iff_fits _ n.magnitude_nonneg).1 h
  exact ⟨⟨false, m, k, hm, hk⟩, he.symm⟩

theorem readsDouble_of_isShort (h : Decimal.IsRepresentable n.worth) (hshort : n.IsShort) :
    n.ReadsDouble n.magnitude := by
  obtain ⟨x, hx, hprinted⟩ := exists_printed hshort
  obtain ⟨d, hd⟩ := exists_magnitude h
  rw [← hd] at hprinted
  refine ⟨x, hx, hprinted ▸ Decimal.inRange_magnitude d, ?_⟩
  rw [hprinted, Decimal.rounded_magnitude, hd]

/-! ### Reading amounts -/

/-- An amount is read, and worth a number. -/
def IsAmount (levels : Nat) (t : Node) (q : ℚ) : Prop :=
  ∃ d, Codec.looseDecimal.read levels t = .ok d ∧ d.worth = q

theorem read_number (levels : Nat) {m : Number} (h : n.number? = some m) :
    Codec.looseDecimal.read levels (.number n) = Codec.readDecimalText m.text :=
  Value.bind_ofNode_of_leaf? Codec.looseDecimalOf (Node.leaf?_number h) levels

/-- An integer of 64 bits is read from its digits. -/
theorem isAmount_of_isWord (levels : Nat) (h : n.IsWord) : IsAmount levels (.number n) n.worth := by
  have hspell {m : Number} (hm : n.number? = some m) (hlt : Digits.value n.whole < UInt64.size)
      (htext : m.text = String.ofList
        (Decimal.spell n.negative (Digits.ofNat (Digits.value n.whole)) [])) :
      IsAmount levels (.number n) n.worth := by
    have hvalue : (Digits.value (Digits.ofNat (Digits.value n.whole) ++ []) : ℚ) /
        10 ^ ([] : List Digit).length = n.magnitude := by
      rw [List.append_nil, Digits.value_ofNat, List.length_nil, pow_zero, div_one,
        magnitude_of_isWhole h.isWhole]
    have hfits : Decimal.Fits n.magnitude :=
      ⟨Digits.value n.whole, 0, lt_trans hlt (by decide), Nat.zero_le _, by
        rw [magnitude_of_isWhole h.isWhole, pow_zero, div_one]⟩
    obtain ⟨d, hd, hworth⟩ := Decimal.read_of_fits n.negative (Digits.ofNat_ne_nil _)
      (hvalue ▸ hfits)
    rw [hvalue] at hworth
    exact ⟨d, by rw [read_number levels hm, Codec.readDecimalText, htext, hd], hworth⟩
  obtain ⟨hwhole, hrange⟩ := h
  cases hsign : n.negative with
  | false =>
    rw [hsign, if_neg Bool.false_ne_true] at hrange
    refine hspell (m := .natural (UInt64.ofNat (Digits.value n.whole))) ?_ hrange ?_
    · simp [number?, hwhole, hsign, hrange]
    · rw [Number.text, UInt64.toNat_ofNat_of_lt' hrange, hsign]
      simp [Text.ofNat, Decimal.spell]
  | true =>
    rw [hsign, if_pos rfl] at hrange
    have hlt : Digits.value n.whole < UInt64.size := lt_of_le_of_lt hrange.2 (by decide)
    refine hspell (m := .negative (Digits.value n.whole)) ?_ hlt ?_
    · simp [number?, hwhole, hsign, hrange]
    · rw [Number.text, hsign]
      simp [Text.ofNat, Decimal.spell]

/-- Every other numeral is read from the text of its double precision reading. -/
theorem number?_of_not_isWord (h : ¬n.IsWord) : n.number? = n.real?.map .real := by
  unfold number?
  dsimp only
  rw [if_neg, if_neg]
  · intro hword
    simp only [Bool.and_eq_true, decide_eq_true_eq] at hword
    exact h ⟨hword.1.1, by rw [if_pos hword.1.2]; exact hword.2⟩
  · intro hword
    simp only [Bool.and_eq_true, Bool.not_eq_true', decide_eq_true_eq] at hword
    exact h ⟨hword.1.1, by rw [hword.1.2, if_neg Bool.false_ne_true]; exact hword.2⟩

/-- What is read of a text is worth a number if that is what the text is rounded to. -/
theorem readDecimalText_iff {s : String} {negative : Bool} {v : ℚ}
    (h : Decimal.IsRounding negative v (Decimal.read s)) (q : ℚ) :
    (∃ d, Codec.readDecimalText s = .ok d ∧ d.worth = Decimal.signFactor negative * q) ↔
      Decimal.InRange v ∧ Decimal.rounded v = q := by
  rw [Codec.readDecimalText]
  cases hread : Decimal.read s with
  | ok d =>
    rw [hread] at h
    obtain ⟨hrange, hworth⟩ := h
    have hfactor : Decimal.signFactor negative ≠ 0 := by
      cases negative <;> norm_num [Decimal.signFactor]
    constructor
    · rintro ⟨d', hd', hworth'⟩
      obtain rfl := Except.ok.inj hd'
      exact ⟨hrange, mul_left_cancel₀ hfactor (hworth.symm.trans hworth')⟩
    · rintro ⟨_, rfl⟩
      exact ⟨d, rfl, hworth⟩
  | error fault =>
    rw [hread] at h
    constructor
    · rintro ⟨d, hd, _⟩
      cases hd
    · rintro ⟨hrange, _⟩
      exact absurd hrange h

theorem isAmount_iff_of_not_isWord (levels : Nat) (h : ¬n.IsWord) (v : ℚ) :
    IsAmount levels (.number n) (Decimal.signFactor n.negative * v) ↔ n.ReadsDouble v := by
  have hnumber := number?_of_not_isWord h
  cases hreal : n.real? with
  | none =>
    rw [hreal] at hnumber
    constructor
    · rintro ⟨d, hd, _⟩
      obtain ⟨v, hv, _⟩ := Outcome.bind_eq_ok_iff.1 hd
      rw [Value.ofNode, Buffered.ofNode, hnumber] at hv
      cases hv
    · rintro ⟨x, hx, _⟩
      rw [hreal] at hx
      cases hx
  | some x =>
    rw [hreal, Option.map_some] at hnumber
    obtain ⟨hnormal, hsign⟩ := of_real? hreal
    have hrounding := Binary64.isRounding_text hnormal
    rw [hsign] at hrounding
    rw [IsAmount, read_number levels hnumber, Number.text, readDecimalText_iff hrounding,
      ReadsDouble, hreal]
    constructor
    · exact fun hx => ⟨x, rfl, hx⟩
    · rintro ⟨x', hx', h⟩
      obtain rfl := Option.some.inj hx'
      exact h

/-- A text that spells a number in plain notation is read as that number if a decimal can be. -/
theorem isAmount_text (levels : Nat) {body : List StringPart} {negative : Bool}
    {whole places : List Digit} (hwhole : whole ≠ [])
    (hbody : StringPart.decode? body = some (String.ofList (Decimal.spell negative whole places)))
    (hrep : Decimal.IsRepresentable (Decimal.signFactor negative *
      (Digits.value (whole ++ places) / 10 ^ places.length))) :
    IsAmount levels (.string body) (Decimal.signFactor negative *
      (Digits.value (whole ++ places) / 10 ^ places.length)) := by
  have hfits := (Decimal.isRepresentable_iff_fits negative (by positivity)).1 hrep
  obtain ⟨d, hd, hworth⟩ := Decimal.read_of_fits negative hwhole hfits
  have hblank : ¬(Text.trim (Decimal.spell negative whole places)).isEmpty = true := fun hempty =>
    Decimal.trim_spell_ne_nil negative hwhole places (List.isEmpty_iff.1 hempty)
  refine ⟨d, ?_, hworth⟩
  refine (Value.bind_ofNode_of_leaf? Codec.looseDecimalOf (Node.leaf?_string hbody) levels).trans ?_
  rw [Codec.looseDecimalOf, String.toList_ofList, if_neg hblank, Codec.readDecimalText, hd]

theorem isAmount_iff (n : Numeral) (levels : Nat) :
    IsAmount levels (.number n) n.worth ↔ n.IsWord ∨ n.ReadsDouble n.magnitude := by
  by_cases h : n.IsWord
  · exact ⟨fun _ => .inl h, fun _ => isAmount_of_isWord levels h⟩
  · rw [worth, isAmount_iff_of_not_isWord levels h]
    exact ⟨.inr, fun hor => hor.resolve_left h⟩

/-- What is read as an amount of a number, and of a text that spells the same number in plain
notation. -/
structure AmountLaws (n : Numeral) (levels : Nat) : Prop where
  exact : IsAmount levels (.number n) n.worth ↔ n.IsWord ∨ n.ReadsDouble n.magnitude
  double : ¬n.IsWord → ∀ v,
    IsAmount levels (.number n) (Decimal.signFactor n.negative * v) ↔ n.ReadsDouble v
  short : n.IsShort → IsAmount levels (.number n) n.worth
  text : ∀ body negative whole places, whole ≠ [] →
    StringPart.decode? body = some (String.ofList (Decimal.spell negative whole places)) →
    Decimal.signFactor negative * (Digits.value (whole ++ places) / 10 ^ places.length) = n.worth →
    IsAmount levels (.string body) n.worth

/-- A number that a decimal can be worth keeps its worth exactly if it is an integer of 64 bits or
the text of its double precision reading says it, as that of a short one does; every text that
spells it in plain notation keeps its worth. -/
theorem amount_laws (h : Decimal.IsRepresentable n.worth) (levels : Nat) : n.AmountLaws levels where
  exact := isAmount_iff n levels
  double := isAmount_iff_of_not_isWord levels
  short hshort := (isAmount_iff n levels).2 (.inr (readsDouble_of_isShort h hshort))
  text body negative whole places hwhole hbody hworth := by
    rw [← hworth] at h ⊢
    exact isAmount_text levels hwhole hbody h

/-- The numeral `-12.50e-1`. -/
def shortNumeral : Numeral :=
  ⟨true, Digits.ofNat 12, some (Digits.ofNat 50), some ⟨false, some true, Digits.ofNat 1⟩⟩

theorem amount_laws_short :
    textOf shortNumeral.text = "-12.50e-1" ∧ Decimal.IsRepresentable shortNumeral.worth ∧
      shortNumeral.AmountLaws allLevels ∧ IsAmount allLevels (.number shortNumeral) (-5 / 4) := by
  have hworth : shortNumeral.worth = -5 / 4 := by decide +kernel
  have hrep : Decimal.IsRepresentable shortNumeral.worth :=
    ⟨⟨true, 125, 2, by decide, by decide⟩, by decide +kernel⟩
  have hlaws := amount_laws hrep allLevels
  refine ⟨by decide +kernel, hrep, hlaws, ?_⟩
  rw [← hworth]
  exact hlaws.short ⟨by decide +kernel, by decide +kernel, by decide +kernel⟩

/-- The numeral `1234567890.123456789`. -/
def longNumeral : Numeral :=
  ⟨false, Digits.ofNat 1234567890, some (Digits.ofNat 123456789), none⟩

/-- The numeral of the largest mantissa. -/
def largestNumeral : Numeral := .ofNat (mantissaBound - 1)

/-- Numbers that decimals can be worth lose places, or are refused, where texts that spell them are
read exactly. -/
theorem amount_loses_worth :
    (Decimal.IsRepresentable longNumeral.worth ∧
      ¬IsAmount allLevels (.number longNumeral) longNumeral.worth ∧
      IsAmount allLevels (Node.ofString "1234567890.123456789") longNumeral.worth) ∧
    (Decimal.IsRepresentable largestNumeral.worth ∧
      Codec.looseDecimal.read allLevels (.number largestNumeral) =
        .error (.decimalText .tooLarge) ∧
      IsAmount allLevels (Node.ofString "79228162514264337593543950335") largestNumeral.worth) := by
  refine ⟨⟨⟨⟨false, 1234567890123456789, 9, by decide, by decide⟩, by decide +kernel⟩, ?_, ?_⟩,
    ⟨⟨false, mantissaBound - 1, 0, by decide, by decide⟩, by decide +kernel⟩, by decide +kernel, ?_⟩
  · rintro ⟨d, hd, hworth⟩
    have hread : Codec.looseDecimal.read allLevels (.number longNumeral) =
        .ok ⟨false, 12345678901234567, 7, by decide, by decide⟩ := by
      decide +kernel
    obtain rfl := Except.ok.inj (hread.symm.trans hd)
    revert hworth
    decide +kernel
  · exact ⟨⟨false, 1234567890123456789, 9, by decide, by decide⟩, by decide +kernel⟩
  · exact ⟨⟨false, mantissaBound - 1, 0, by decide, by decide⟩, by decide +kernel⟩

end Numeral

end Json

end MarketFeed
