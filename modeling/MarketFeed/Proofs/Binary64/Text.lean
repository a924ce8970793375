import MarketFeed.Proofs.Binary64.Shortest
import MarketFeed.Proofs.Decimal.Rounded

/-!
# Decimals from double precision numbers

The text of a double precision number is read as a decimal if the shortest decimal of the number is
neither too small nor too large for that, and then the decimal is worth what the shortest one is
(`Binary64.printed`), rounded to the last place of a decimal (`Binary64.isRounding_text`).
-/

namespace MarketFeed

namespace Binary64

/-- What the text of a number spells, but for the sign. -/
def printed (x : Binary64) : ℚ := if x.significand = 0 then 0 else x.shortest.worth

/-! ### Layout -/

/-- The number of digits before the point. -/
def Point.whole (p : Point) : ℤ := (Digits.ofNat p.digits).length + p.tens

variable {p : Point}

/-- A point lies between the powers of ten that its digits begin with. -/
theorem Point.worth_bounds (h : 0 < p.digits) :
    10 ^ (p.whole - 1) ≤ p.worth ∧ p.worth < 10 ^ p.whole := by
  have hten : (0 : ℚ) < 10 ^ p.tens := by positivity
  have hle : (10 : ℚ) ^ ((Digits.ofNat p.digits).length - 1) ≤ p.digits := by
    exact_mod_cast Digits.pow_le_of_ofNat h
  have hlt : (p.digits : ℚ) < 10 ^ (Digits.ofNat p.digits).length := by
    exact_mod_cast Digits.lt_pow_length_ofNat p.digits
  have hlength := List.length_pos_iff.2 (Digits.ofNat_ne_nil p.digits)
  constructor
  · have hexp : p.whole - 1 = ((Digits.ofNat p.digits).length - 1 : Nat) + p.tens := by
      unfold whole
      omega
    rw [hexp, zpow_add₀ (by norm_num), zpow_natCast, worth]
    gcongr
  · rw [whole, zpow_add₀ (by norm_num), zpow_natCast, worth]
    gcongr

theorem pointed_chars (d : Digit) (ds : List Digit) :
    pointed (Digits.chars (d :: ds)) = Decimal.spell false [d] ds := by
  cases ds with
  | nil => rfl
  | cons e es => rfl

/-- A point outside the positional range is written with its first digit before the point and a
power of ten behind it. -/
theorem Point.chars_scientific (h : 16 < p.whole ∨ p.whole ≤ -5) {d : Digit} {ds : List Digit}
    (hds : Digits.ofNat p.digits = d :: ds) :
    p.chars = Decimal.spell false [d] ds ++
      'e' :: (if p.whole - 1 < 0 then '-' else '+') ::
        Digits.chars (Digits.ofNat (p.whole - 1).natAbs) := by
  have hlength : (Digits.chars (Digits.ofNat p.digits)).length = (Digits.ofNat p.digits).length :=
    List.length_map _
  unfold chars
  dsimp only
  rw [hlength, ← whole, if_pos h, hds, pointed_chars, List.append_assoc]
  rfl

/-- Characters spell a point in plain notation, with digits that a decimal can hold. -/
def Point.IsSpelledBy (p : Point) (cs : List Char) : Prop :=
  ∃ whole places, cs = Decimal.spell false whole places ∧ whole ≠ [] ∧
    places.length ≤ maxScale ∧ Digits.value (whole ++ places) < mantissaBound ∧
    (Digits.value (whole ++ places) : ℚ) / 10 ^ places.length = p.worth

theorem Point.worth_of_neg (h : p.tens < 0) : p.digits / 10 ^ (-p.tens).toNat = p.worth := by
  rw [worth, zpow_eq_div (by norm_num), show p.tens.toNat = 0 by omega, pow_zero]
  ring

/-- The digits, zeros up to the point, and a zero behind it. -/
theorem Point.isSpelledBy_zeros (hpos : 0 < p.digits) (hwhole : p.whole ≤ 16) (h : 0 ≤ p.tens) :
    p.IsSpelledBy (Digits.chars (Digits.ofNat p.digits) ++ List.replicate p.tens.toNat '0' ++
      ['.', '0']) := by
  obtain ⟨k, hk⟩ := Int.eq_ofNat_of_zero_le h
  have hworth : p.worth = (p.digits * 10 ^ k : Nat) := by
    rw [worth, hk, zpow_natCast]
    push_cast
    rfl
  have hvalue := Digits.value_append_zeros (Digits.ofNat p.digits ++ List.replicate k Digit.zero) 1
  rw [List.replicate_one, Digits.value_append_zeros, Digits.value_ofNat] at hvalue
  refine ⟨Digits.ofNat p.digits ++ List.replicate k Digit.zero, [Digit.zero], ?_, ?_, by decide, ?_,
    ?_⟩
  · rw [hk, Int.toNat_natCast, Decimal.spell, Digits.chars_append, Digits.chars_replicate_zero]
    rfl
  · exact List.append_ne_nil_of_left_ne_nil (Digits.ofNat_ne_nil p.digits) _
  · have hlt : p.worth < 10 ^ (16 : ℤ) :=
      lt_of_lt_of_le (worth_bounds hpos).2 (zpow_le_zpow_right₀ (by norm_num) hwhole)
    have hlt : p.digits * 10 ^ k < 10 ^ 16 := by
      rw [hworth] at hlt
      exact_mod_cast hlt
    rw [hvalue]
    exact lt_trans (Nat.mul_lt_mul_of_pos_right hlt (by decide)) (by decide)
  · rw [hvalue, hworth, List.length_singleton]
    push_cast
    field_simp

/-- The point among the digits. -/
theorem Point.isSpelledBy_split (hpos : 0 < p.digits) (hlt : p.digits < 10 ^ 18) (h : p.tens < 0)
    (hwhole : 0 < p.whole) :
    p.IsSpelledBy ((Digits.chars (Digits.ofNat p.digits)).take p.whole.toNat ++
      '.' :: (Digits.chars (Digits.ofNat p.digits)).drop p.whole.toNat) := by
  have hlength := Digits.length_ofNat_le hpos hlt
  have hdrop : ((Digits.ofNat p.digits).drop p.whole.toNat).length = (-p.tens).toNat := by
    rw [List.length_drop]
    unfold whole at hwhole ⊢
    omega
  have hne : (Digits.ofNat p.digits).drop p.whole.toNat ≠ [] := by
    rw [← List.length_pos_iff, hdrop]
    omega
  refine ⟨(Digits.ofNat p.digits).take p.whole.toNat, (Digits.ofNat p.digits).drop p.whole.toNat,
    ?_, Digits.ne_nil_of_isPlain (Digits.isPlain_take_ofNat _ (by omega)), ?_, ?_, ?_⟩
  · rw [Decimal.spell, if_neg hne]
    simp [Digits.chars]
  · rw [hdrop, maxScale]
    unfold whole at hwhole
    omega
  · rw [List.take_append_drop, Digits.value_ofNat]
    exact lt_trans hlt (by decide)
  · rw [List.take_append_drop, Digits.value_ofNat, hdrop, worth_of_neg h]

/-- A lone zero before the point, and zeros behind it. -/
theorem Point.isSpelledBy_small (hpos : 0 < p.digits) (hlt : p.digits < 10 ^ 18)
    (hwhole : p.whole ≤ 0) (hlow : -5 < p.whole) :
    p.IsSpelledBy (['0', '.'] ++ List.replicate (-p.whole).toNat '0' ++
      Digits.chars (Digits.ofNat p.digits)) := by
  have hlength := Digits.length_ofNat_le hpos hlt
  have hlength' := List.length_pos_iff.2 (Digits.ofNat_ne_nil p.digits)
  have hne : List.replicate (-p.whole).toNat Digit.zero ++ Digits.ofNat p.digits ≠ [] :=
    List.append_ne_nil_of_right_ne_nil _ (Digits.ofNat_ne_nil p.digits)
  have hplaces : (List.replicate (-p.whole).toNat Digit.zero ++ Digits.ofNat p.digits).length =
      (-p.tens).toNat := by
    rw [List.length_append, List.length_replicate]
    unfold whole at hwhole ⊢
    omega
  have hvalue := Digits.value_replicate_append ((-p.whole).toNat + 1) (Digits.ofNat p.digits)
  rw [List.replicate_succ, List.cons_append, Digits.value_ofNat] at hvalue
  refine ⟨[Digit.zero], List.replicate (-p.whole).toNat Digit.zero ++ Digits.ofNat p.digits, ?_,
    List.cons_ne_nil _ _, ?_, ?_, ?_⟩
  · rw [Decimal.spell, if_neg hne, Digits.chars_append, Digits.chars_replicate_zero]
    rfl
  · rw [hplaces, maxScale]
    unfold whole at hlow
    omega
  · rw [List.singleton_append, hvalue]
    exact lt_trans hlt (by decide)
  · rw [List.singleton_append, hvalue, hplaces, worth_of_neg]
    unfold whole at hwhole
    omega

/-- A point in the positional range is written in plain notation. -/
theorem Point.isSpelledBy_chars (h : ¬(16 < p.whole ∨ p.whole ≤ -5)) (hpos : 0 < p.digits)
    (hlt : p.digits < 10 ^ 18) : p.IsSpelledBy p.chars := by
  obtain ⟨hhigh, hlow⟩ := not_or.1 h
  have hchars : (Digits.chars (Digits.ofNat p.digits)).length = (Digits.ofNat p.digits).length :=
    List.length_map _
  unfold chars
  dsimp only
  rw [hchars, ← whole, if_neg h]
  split
  · next htens => exact isSpelledBy_zeros hpos (not_lt.1 hhigh) htens
  · next htens =>
    split
    · next hwhole => exact isSpelledBy_split hpos hlt (not_le.1 htens) hwhole
    · next hwhole => exact isSpelledBy_small hpos hlt (not_lt.1 hwhole) (not_le.1 hlow)

/-! ### Reading -/

/-- Characters behind a minus sign if there is one. -/
def signed (negative : Bool) (cs : List Char) : List Char := if negative then '-' :: cs else cs

theorem signed_spell (negative : Bool) (whole places : List Digit) (cs : List Char) :
    signed negative (Decimal.spell false whole places ++ cs) =
      Decimal.spell negative whole places ++ cs := by
  cases negative <;> rfl

/-- A point in plain notation is read as what it is worth. -/
theorem Point.IsSpelledBy.isRounding {cs : List Char} (h : p.IsSpelledBy cs) (hpos : 0 < p.worth)
    (negative : Bool) :
    Decimal.IsRounding negative p.worth (Decimal.readChars (signed negative cs)) := by
  obtain ⟨whole, places, rfl, hwhole, hplaces, hvalue, hworth⟩ := h
  obtain ⟨d, hd, hd'⟩ := Decimal.plain_of_fits negative hwhole ⟨_, _, hvalue, hplaces, rfl⟩
  have hsigned := signed_spell negative whole places []
  rw [List.append_nil, List.append_nil] at hsigned
  rw [hsigned, Decimal.readChars, hd]
  exact Decimal.isRounding_of_worth hpos.le (hworth ▸ hd')

/-- A point outside the positional range is read as what it is worth, rounded. -/
theorem Point.isRounding_scientific (h : 16 < p.whole ∨ p.whole ≤ -5) (hpos : 0 < p.digits)
    (hlt : p.digits < 10 ^ 18) (negative : Bool) :
    Decimal.IsRounding negative p.worth (Decimal.readChars (signed negative p.chars)) := by
  obtain ⟨d, ds, hds⟩ := List.exists_cons_of_ne_nil (Digits.ofNat_ne_nil p.digits)
  have hlength := Digits.length_ofNat_le hpos hlt
  rw [hds, List.length_cons] at hlength
  have hplaces : ds.length ≤ maxScale := by
    rw [maxScale]
    omega
  have hvalue : Digits.value ([d] ++ ds) = p.digits := by
    rw [List.singleton_append, ← hds, Digits.value_ofNat]
  obtain ⟨b, hb, hnegative, hmantissa, hscale⟩ :=
    Decimal.plain_of_spell negative (List.cons_ne_nil d []) hplaces (hvalue ▸ hpos)
      (hvalue ▸ lt_trans hlt (by decide))
  have hwhole : p.whole - 1 = ds.length + p.tens := by
    rw [whole, hds, List.length_cons]
    push_cast
    ring
  have hworth : p.worth = b.magnitude * 10 ^ (p.whole - 1) := by
    rw [Decimal.magnitude, hmantissa, hvalue, hscale, hwhole, zpow_add₀ (by norm_num), zpow_natCast,
      worth]
    field_simp
  obtain ⟨hlow, hhigh⟩ := worth_bounds hpos
  have hten : (0 : ℚ) < 10 ^ (p.whole - 1) := by positivity
  have hone : 1 ≤ b.magnitude := by
    rw [hworth] at hlow
    exact le_of_mul_le_mul_right (by rwa [one_mul]) hten
  have hten' : b.magnitude < 10 := by
    have hpow : (10 : ℚ) ^ p.whole = 10 * 10 ^ (p.whole - 1) := by
      rw [← zpow_one_add₀ (by norm_num)]
      congr 1
      ring
    rw [hworth, hpow] at hhigh
    exact lt_of_mul_lt_mul_right hhigh hten.le
  rw [chars_scientific h hds, signed_spell, hworth, ← hnegative]
  rw [← hnegative] at hb
  exact Decimal.isRounding_scientific hb hone hten' _

theorem Point.worth_pos (hpos : 0 < p.digits) : 0 < p.worth := by
  unfold worth
  positivity

/-- The text of a number is read as what the shortest decimal is worth, rounded to the last place of
a decimal. -/
theorem isRounding_text {x : Binary64} (hx : x.IsNormal) :
    Decimal.IsRounding x.negative x.printed (Decimal.read x.text) := by
  rw [Decimal.read, text, String.toList_ofList]
  by_cases hzero : x.significand = 0
  · rw [printed, if_pos hzero, if_pos hzero]
    have hread : Decimal.readChars (if x.negative then ['-', '0', '.', '0'] else ['0', '.', '0']) =
        .ok ⟨false, 0, 1, by decide, by decide⟩ := by
      cases x.negative <;> decide +kernel
    rw [hread]
    refine Decimal.isRounding_of_worth le_rfl ?_
    rw [mul_zero, Decimal.worth, Decimal.magnitude, Nat.cast_zero, zero_div, mul_zero]
  · obtain ⟨_, hpos, hlt, _⟩ := isShortest hx (Nat.pos_of_ne_zero hzero)
    rw [printed, if_neg hzero, if_neg hzero]
    by_cases h : 16 < x.shortest.whole ∨ x.shortest.whole ≤ -5
    · exact Point.isRounding_scientific h hpos hlt x.negative
    · exact (Point.isSpelledBy_chars h hpos hlt).isRounding (Point.worth_pos hpos) x.negative

end Binary64

end MarketFeed
