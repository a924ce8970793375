import Mathlib.Algebra.Order.Floor.Semifield
import Mathlib.Data.Rat.Floor
import MarketFeed.Proofs.Decimal.Plain

/-!
# Decimals in scientific notation

A text in plain or scientific notation with few digits is read as the number it spells, rounded to
the last place of a decimal (`Decimal.rounded`), unless that number is too small or too large
(`Decimal.IsRounding`).
-/

namespace MarketFeed

namespace Decimal

/-- A magnitude rounded to the last place, half up. -/
def rounded (v : ℚ) : ℚ := ⌊v * 10 ^ maxScale + 1 / 2⌋₊ / 10 ^ maxScale

/-- What a decimal is worth is not rounded. -/
theorem rounded_magnitude (d : Decimal) : rounded d.magnitude = d.magnitude := by
  obtain ⟨j, hj⟩ := Nat.exists_eq_add_of_le d.scale_le
  have hwhole : d.magnitude * 10 ^ maxScale = (d.mantissa * 10 ^ j : Nat) := by
    rw [magnitude, hj, pow_add]
    push_cast
    field_simp
  have hfloor : ⌊((d.mantissa * 10 ^ j : Nat) : ℚ) + 1 / 2⌋₊ = d.mantissa * 10 ^ j := by
    rw [Nat.floor_eq_iff (by positivity)]
    constructor <;> linarith
  rw [rounded, hwhole, hfloor, ← hwhole]
  field_simp

/-- A magnitude that decimals reach: zero, or one neither too small nor too large. -/
def InRange (v : ℚ) : Prop := v = 0 ∨ 1 / 10 ^ maxScale ≤ v ∧ v < mantissaBound

theorem inRange_magnitude (d : Decimal) : InRange d.magnitude := by
  rcases Nat.eq_zero_or_pos d.mantissa with hzero | hpos
  · exact .inl (by rw [magnitude, hzero, Nat.cast_zero, zero_div])
  · have hone : (1 : ℚ) ≤ d.mantissa := by exact_mod_cast hpos
    refine .inr ⟨?_, (isReading_plainZero d).lt⟩
    exact div_le_div₀ (Nat.cast_nonneg _) hone (by positivity)
      (pow_le_pow_right₀ (by norm_num) d.scale_le)

/-- What is read of a number with a sign: its rounded magnitude if that is in range. -/
def IsRounding (negative : Bool) (v : ℚ) : Except Fault Decimal → Prop
  | .ok d => InRange v ∧ d.worth = signFactor negative * rounded v
  | .error _ => ¬InRange v

/-- A decimal that is worth the very number is a rounding of it. -/
theorem isRounding_of_worth {negative : Bool} {v : ℚ} {d : Decimal} (hv : 0 ≤ v)
    (h : d.worth = signFactor negative * v) : IsRounding negative v (.ok d) := by
  have hmagnitude : d.magnitude = v := by
    rw [← abs_signFactor_mul d.negative d.magnitude_nonneg, ← worth, h, abs_signFactor_mul _ hv]
  rw [← hmagnitude] at h ⊢
  exact ⟨inRange_magnitude d, by rw [rounded_magnitude, h]⟩

/-! ### Moving the point -/

/-- A quotient by a power of ten is rounded half up. -/
theorem roundedQuotient_eq (n places : Nat) :
    roundedQuotient n places = ⌊(n : ℚ) / 10 ^ places + 1 / 2⌋₊ := by
  rw [roundedQuotient, Nat.pow_eq, Nat.pow_eq]
  cases places with
  | zero =>
    rw [eq_comm, Nat.floor_eq_iff (by positivity)]
    simp
    norm_num
  | succ k =>
    have hhalf : (n : ℚ) / 10 ^ (k + 1) + 1 / 2 =
        (n + 5 * 10 ^ k : Nat) / (10 ^ (k + 1) : Nat) := by
      push_cast
      rw [pow_succ]
      field_simp
      ring
    have hdiv (m : Nat) : m / 10 ^ (k + 1) = m / 10 ^ k / 10 := by
      rw [Nat.div_div_eq_div_mul, pow_succ]
    rw [hhalf, Nat.floor_div_eq_div, hdiv, hdiv,
      Nat.add_mul_div_right _ _ (Nat.pow_pos (by decide)), Nat.add_sub_cancel]
    generalize n / 10 ^ k = m
    split <;> omega

theorem exists_shiftRight {b : Decimal} {places : Nat} (hplaces : places ≤ maxScale)
    (hlt : b.magnitude * 10 ^ places < mantissaBound) : ∃ d, shiftRight b places = .ok d := by
  have hmantissa : b.mantissa * 10 ^ (places - b.scale) < mantissaBound := by
    rcases Nat.le_total b.scale places with hle | hle
    · obtain ⟨j, rfl⟩ := Nat.exists_eq_add_of_le hle
      rw [Nat.add_sub_cancel_left]
      have hwhole : b.magnitude * 10 ^ (b.scale + j) = (b.mantissa * 10 ^ j : Nat) := by
        rw [magnitude, pow_add]
        push_cast
        field_simp
      rw [hwhole] at hlt
      exact_mod_cast hlt
    · rw [Nat.sub_eq_zero_of_le hle, pow_zero, mul_one]
      exact b.mantissa_lt
  rw [shiftRight, if_neg (Nat.not_lt.2 hplaces), Nat.pow_eq, ofParts?,
    dif_pos ⟨hmantissa, (Nat.sub_le _ _).trans b.scale_le⟩]
  exact ⟨_, rfl⟩

/-- Moving the point of a number from one upwards to the right keeps all its digits. -/
theorem isRounding_shiftRight {b : Decimal} (hone : 1 ≤ b.magnitude) (places : Nat) :
    IsRounding b.negative (b.magnitude * 10 ^ places) (shiftRight b places) := by
  have hpos : 0 < b.magnitude := lt_of_lt_of_le one_pos hone
  cases h : shiftRight b places with
  | ok d =>
    refine isRounding_of_worth (by positivity) ?_
    rw [of_shiftRight h, worth, mul_assoc]
  | error fault =>
    rintro (hzero | ⟨_, hlt⟩)
    · exact absurd hzero (by positivity)
    · -- A power of ten that is too large leaves the range, and all others are read.
      have hplaces : places ≤ maxScale := by
        by_contra hlarge
        have hpow : (10 : ℚ) ^ (maxScale + 1) ≤ 10 ^ places :=
          pow_le_pow_right₀ (by norm_num) (Nat.lt_of_not_le hlarge)
        have hle : (10 : ℚ) ^ places ≤ b.magnitude * 10 ^ places :=
          le_mul_of_one_le_left (by positivity) hone
        have hbound : ((mantissaBound : Nat) : ℚ) ≤ 10 ^ (maxScale + 1) := by norm_num
        linarith
      obtain ⟨d, hd⟩ := exists_shiftRight hplaces hlt
      rw [hd] at h
      cases h

theorem roundedQuotient_lt (b : Decimal) (places : Nat) :
    roundedQuotient b.mantissa places < mantissaBound := by
  have hlt := b.mantissa_lt
  rw [roundedQuotient, Nat.pow_eq, Nat.pow_eq]
  cases places with
  | zero => simpa using hlt
  | succ k =>
    have hle : b.mantissa / 10 ^ (k + 1) ≤ b.mantissa / 10 :=
      Nat.div_le_div_left (Nat.le_pow (Nat.succ_pos k)) (by decide)
    have hbound : mantissaBound = 2 ^ 96 := rfl
    split <;> omega

/-- Moving the point to the left rounds to the last place. -/
theorem exists_shiftLeft (b : Decimal) {places : Nat} (hplaces : places ≤ maxScale) :
    ∃ d, shiftLeft b places = .ok d ∧
      d.worth = signFactor b.negative * rounded (b.magnitude / 10 ^ places) := by
  have hscale : b.scale + places - (b.scale + places - maxScale) ≤ maxScale := by omega
  rw [shiftLeft, if_neg (Nat.not_lt.2 hplaces)]
  dsimp only
  rw [ofParts?, dif_pos ⟨roundedQuotient_lt b _, hscale⟩]
  refine ⟨_, rfl, ?_⟩
  rw [worth]
  congr 1
  rw [magnitude]
  dsimp only
  rcases Nat.le_total (b.scale + places) maxScale with hle | hle
  · -- All places fit.
    have hquotient := roundedQuotient_mul b.mantissa 0
    rw [pow_zero, mul_one] at hquotient
    have hsame := rounded_magnitude ⟨b.negative, b.mantissa, b.scale + places, b.mantissa_lt, hle⟩
    rw [Nat.sub_eq_zero_of_le hle, hquotient, Nat.sub_zero, magnitude, div_div, ← pow_add]
    exact hsame.symm
  · obtain ⟨excess, hexcess⟩ := Nat.exists_eq_add_of_le hle
    have hratio : b.magnitude / 10 ^ places * 10 ^ maxScale = b.mantissa / 10 ^ excess := by
      rw [magnitude, div_div, ← pow_add, hexcess, pow_add]
      field_simp
    rw [hexcess, Nat.add_sub_cancel_left, Nat.add_sub_cancel, roundedQuotient_eq, rounded, hratio]

/-- Moving the point of a number with one digit before it to the left rounds to the last place. -/
theorem isRounding_shiftLeft {b : Decimal} (hone : 1 ≤ b.magnitude) (hten : b.magnitude < 10)
    (places : Nat) : IsRounding b.negative (b.magnitude / 10 ^ places) (shiftLeft b places) := by
  have hpos : 0 < b.magnitude := lt_of_lt_of_le one_pos hone
  rcases Nat.lt_or_ge maxScale places with hlarge | hplaces
  · rw [shiftLeft, if_pos hlarge]
    rintro (hzero | ⟨hle, _⟩)
    · exact absurd hzero (by positivity)
    · -- The number is below the last place.
      refine absurd hle (not_le.2 ?_)
      have hpow : (10 : ℚ) * 10 ^ maxScale ≤ 10 ^ places := by
        rw [← pow_succ']
        exact pow_le_pow_right₀ (by norm_num) hlarge
      rw [div_lt_div_iff₀ (by positivity) (by positivity), one_mul]
      calc b.magnitude * 10 ^ maxScale < 10 * 10 ^ maxScale := by gcongr
        _ ≤ 10 ^ places := hpow
  · obtain ⟨d, hd, hworth⟩ := exists_shiftLeft b hplaces
    rw [hd]
    refine ⟨.inr ⟨?_, ?_⟩, hworth⟩
    · exact div_le_div₀ hpos.le hone (by positivity) (pow_le_pow_right₀ (by norm_num) hplaces)
    · calc b.magnitude / 10 ^ places ≤ b.magnitude :=
            div_le_self hpos.le (one_le_pow₀ (by norm_num))
        _ < mantissaBound := (isReading_plainZero b).lt

/-! ### Texts with a power of ten -/

/-- A text with an exponent mark behind plain notation is in scientific notation. -/
theorem readChars_of_mark {base exponent : List Char} {b : Decimal} (hb : plain base = .ok b) :
    readChars (base ++ 'e' :: exponent) = scientific base exponent := by
  have hunmarked : ∀ c ∈ base, (!isExponentMark c) = true := fun c hc => by
    rw [(isReading_of_plain hb).2 c hc]
    rfl
  have htake : (base ++ 'e' :: exponent).takeWhile (!isExponentMark ·) = base := by
    rw [List.takeWhile_append_of_pos hunmarked, List.takeWhile_cons_of_neg (by decide),
      List.append_nil]
  have hdrop : (base ++ 'e' :: exponent).dropWhile (!isExponentMark ·) = 'e' :: exponent := by
    rw [List.dropWhile_append_of_pos hunmarked, List.dropWhile_cons_of_neg (by decide)]
  unfold readChars
  split
  · next d hd =>
    have hmark := (isReading_of_plain hd).2 'e' (by simp)
    cases hmark
  · rw [hdrop, htake]

/-- The digits of a number spell it, with or without a plus sign. -/
theorem magnitude?_chars {cs : List Char} {n : Nat}
    (h : cs = Digits.chars (Digits.ofNat n) ∨ cs = '+' :: Digits.chars (Digits.ofNat n)) :
    magnitude? cs = if n < UInt32.size then some n else none := by
  obtain ⟨d, ds, hds⟩ := List.exists_cons_of_ne_nil (Digits.ofNat_ne_nil n)
  have hplus : ∀ cs, '+' :: cs ≠ Digits.chars (Digits.ofNat n) := by
    intro cs he
    rw [hds, Digits.chars, List.map_cons] at he
    exact (Digit.toChar_ne_sign d).2 (List.cons.inj he).1.symm
  have hempty : ¬(Digits.chars (Digits.ofNat n)).isEmpty = true := by
    rw [hds]
    exact Bool.false_ne_true
  unfold magnitude?
  split
  · next cs =>
    obtain rfl := (List.cons.inj (h.resolve_left (hplus cs))).2
    dsimp only
    rw [if_neg hempty, Digits.mapM_chars]
    dsimp only
    rw [Digits.value_ofNat]
  · next hne =>
    obtain rfl := h.resolve_right (hne _)
    dsimp only
    rw [if_neg hempty, Digits.mapM_chars]
    dsimp only
    rw [Digits.value_ofNat]

/-- A power of ten behind a base with one digit before the point. -/
theorem isRounding_scientific {base : List Char} {b : Decimal} (hb : plain base = .ok b)
    (hone : 1 ≤ b.magnitude) (hten : b.magnitude < 10) (e : ℤ) :
    IsRounding b.negative (b.magnitude * 10 ^ e)
      (readChars (base ++ 'e' :: (if e < 0 then '-' else '+') ::
        Digits.chars (Digits.ofNat e.natAbs))) := by
  rw [readChars_of_mark hb, scientific, hb]
  by_cases hneg : e < 0
  · obtain ⟨k, hk⟩ : ∃ k : Nat, e = -(k : ℤ) := ⟨e.natAbs, by omega⟩
    have hshift := isRounding_shiftLeft hone hten k
    rw [div_eq_mul_inv, ← zpow_natCast, ← zpow_neg, ← hk] at hshift
    have hplaces := magnitude?_chars (.inl (Eq.refl (Digits.chars (Digits.ofNat k))))
    rw [if_pos hneg, show e.natAbs = k by omega]
    simp only [bind, Except.bind]
    rw [hplaces]
    by_cases hlt : k < UInt32.size
    · rw [if_pos hlt]
      exact hshift
    · rw [shiftLeft, if_pos (lt_of_lt_of_le (by decide) (Nat.le_of_not_lt hlt))] at hshift
      rw [if_neg hlt]
      exact hshift
  · obtain ⟨k, rfl⟩ := Int.eq_ofNat_of_zero_le (not_lt.1 hneg)
    have hshift := isRounding_shiftRight hone k
    rw [← zpow_natCast] at hshift
    have hplaces := magnitude?_chars (.inr (Eq.refl ('+' :: Digits.chars (Digits.ofNat k))))
    rw [if_neg hneg, Int.natAbs_natCast]
    simp only [bind, Except.bind]
    split
    · next he => exact absurd (List.cons.inj he).1 (by decide)
    · rw [hplaces]
      by_cases hlt : k < UInt32.size
      · rw [if_pos hlt]
        exact hshift
      · rw [shiftRight, if_pos (lt_of_lt_of_le (by decide) (Nat.le_of_not_lt hlt))] at hshift
        rw [if_neg hlt]
        exact hshift

end Decimal

end MarketFeed
