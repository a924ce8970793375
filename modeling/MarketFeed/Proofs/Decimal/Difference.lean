import MarketFeed.Proofs.Decimal.Worth
import MarketFeed.Proofs.Rounding

/-!
# The difference of two decimals

A number over a power of ten does not fit into a decimal exactly if even without places it is too
large (`fit?_eq_none_iff`), since with fewer places less has to fit.  So two decimals have no
difference exactly if the integer nearest to it leaves the range (`sub?_eq_none_iff`), and where
they have one, it is what they differ by, rounded to the places that are kept (`worth_of_sub?`).
-/

namespace MarketFeed

namespace Decimal

theorem mantissaBound_even : mantissaBound % 2 = 0 := by decide

theorem mantissaBound_pos : 0 < mantissaBound := by decide

/-! ### Fitting -/

theorem fit?_eq_none_iff {negative : Bool} {n excess scale : Nat} (hscale : scale ≤ maxScale) :
    fit? negative n excess scale = none ↔
      mantissaBound ≤ Rounding.halfEven n (10 ^ (excess + scale)) := by
  induction scale generalizing excess with
  | zero => exact ofParts?_eq_none_iff hscale
  | succ scale ih =>
    have hfewer : fit? negative n (excess + 1) scale = none ↔
        mantissaBound ≤ Rounding.halfEven n (10 ^ (excess + (scale + 1))) := by
      rw [ih (Nat.le_of_succ_le hscale), Nat.add_right_comm, Nat.add_assoc]
    rw [fit?]
    cases hparts : ofParts? negative (Rounding.halfEven n (Nat.pow 10 excess)) (scale + 1) with
    | none => exact hfewer
    | some d =>
      -- What fits with places fits without them.
      have hfits : ¬mantissaBound ≤ Rounding.halfEven n (10 ^ excess) := by
        refine fun hle => Option.some_ne_none d ?_
        rw [← hparts]
        exact (ofParts?_eq_none_iff hscale).2 hle
      refine iff_of_false nofun fun h => hfits ?_
      exact Rounding.le_halfEven_of_le (by positivity)
        (Nat.pow_le_pow_right (by decide) (Nat.le_add_right _ _)) mantissaBound_even
        mantissaBound_pos h

/-- What fits is the number, rounded to the places that are kept. -/
theorem parts_of_fit? {negative : Bool} {n excess scale : Nat} {d : Decimal}
    (h : fit? negative n excess scale = some d) :
    d.negative = negative ∧ ∃ dropped, d.scale + dropped = scale ∧
      d.mantissa = Rounding.halfEven n (10 ^ (excess + dropped)) := by
  induction scale generalizing excess with
  | zero =>
    obtain ⟨hnegative, hmantissa, hscale⟩ := parts_of_ofParts? h
    exact ⟨hnegative, 0, hscale, hmantissa⟩
  | succ scale ih =>
    rw [fit?] at h
    split at h
    · next hparts =>
      cases h
      obtain ⟨hnegative, hmantissa, hscale⟩ := parts_of_ofParts? hparts
      exact ⟨hnegative, 0, hscale, hmantissa⟩
    · obtain ⟨hnegative, dropped, hscale, hmantissa⟩ := ih h
      refine ⟨hnegative, dropped + 1, by omega, ?_⟩
      rw [hmantissa, Nat.add_assoc, Nat.add_comm 1 dropped]

/-- A number that is small enough keeps all its places. -/
theorem fit?_of_lt {n scale : Nat} (hn : n < mantissaBound) (hscale : scale ≤ maxScale)
    (negative : Bool) : fit? negative n 0 scale = some ⟨negative, n, scale, hn, hscale⟩ := by
  have hparts : ofParts? negative (Rounding.halfEven n (Nat.pow 10 0)) scale =
      some ⟨negative, n, scale, hn, hscale⟩ := by
    rw [show Nat.pow 10 0 = 1 from rfl, Rounding.halfEven_one, ofParts?, dif_pos ⟨hn, hscale⟩]
  cases scale with
  | zero => exact hparts
  | succ scale => rw [fit?, hparts]

/-! ### Subtracting -/

theorem signFactor_mul_abs (x y : ℚ) : signFactor (decide (x < y)) * |x - y| = x - y := by
  by_cases h : x < y
  · simp [signFactor, h, abs_of_neg (sub_neg.2 h)]
  · simp [signFactor, h, abs_of_nonneg (sub_nonneg.2 (not_lt.1 h))]

theorem worth_eq_zero {d : Decimal} (h : d.mantissa = 0) : d.worth = 0 := by
  simp [worth, magnitude, h]

theorem worth_neg (d : Decimal) : d.neg.worth = -d.worth := by
  unfold worth neg signFactor magnitude
  cases d.negative <;> simp

theorem abs_worth (d : Decimal) : |d.worth| = d.magnitude :=
  abs_signFactor_mul _ d.magnitude_nonneg

theorem magnitude_le (d : Decimal) : d.magnitude ≤ (mantissaBound - 1 : ℤ) := by
  have hmantissa : (d.mantissa : ℚ) ≤ (mantissaBound - 1 : ℤ) := by
    have := d.mantissa_lt
    exact_mod_cast (by omega : (d.mantissa : ℤ) ≤ mantissaBound - 1)
  have hpow : (1 : ℚ) ≤ 10 ^ d.scale := one_le_pow₀ (by norm_num)
  exact (div_le_self (Nat.cast_nonneg _) hpow).trans hmantissa

/-- The larger scale of two decimals. -/
def commonScale (a b : Decimal) : Nat := max a.scale b.scale

/-- What two decimals differ by, without sign and in units of the last common place. -/
def gap (a b : Decimal) : Nat :=
  (a.signedAt (commonScale a b) - b.signedAt (commonScale a b)).natAbs

theorem commonScale_le (a b : Decimal) : commonScale a b ≤ maxScale :=
  max_le a.scale_le b.scale_le

theorem cast_signedAt_sub (a b : Decimal) :
    ((a.signedAt (commonScale a b) - b.signedAt (commonScale a b) : ℤ) : ℚ) =
      (a.worth - b.worth) * 10 ^ commonScale a b := by
  have ha : a.scale ≤ commonScale a b := le_max_left _ _
  have hb : b.scale ≤ commonScale a b := le_max_right _ _
  rw [Int.cast_sub, cast_signedAt ha, cast_signedAt hb, sub_mul]

theorem cast_gap (a b : Decimal) :
    (gap a b : ℚ) = |a.worth - b.worth| * 10 ^ commonScale a b := by
  rw [gap, Nat.cast_natAbs, Int.cast_abs, cast_signedAt_sub, abs_mul,
    abs_of_pos (by positivity : (0 : ℚ) < 10 ^ commonScale a b)]

/-- Two decimals are subtracted at the larger scale, unless one of them is zero. -/
theorem sub?_of_ne {a b : Decimal} (ha : a.mantissa ≠ 0) (hb : b.mantissa ≠ 0) :
    a.sub? b = fit? (decide (a.worth < b.worth)) (gap a b) 0 (commonScale a b) := by
  have hsign : (a.signedAt (commonScale a b) - b.signedAt (commonScale a b) < 0) ↔
      a.worth < b.worth := by
    have hpow : (0 : ℚ) < 10 ^ commonScale a b := by positivity
    rw [← @Int.cast_lt ℚ, cast_signedAt_sub, Int.cast_zero, ← sub_neg (a := a.worth),
      ← neg_pos, ← neg_mul, mul_pos_iff_of_pos_right hpow, neg_pos]
  rw [sub?, if_neg ha, if_neg hb, gap]
  exact congrArg (fun negative => fit? negative _ _ _) (decide_eq_decide.2 hsign)

/-- Where one of two decimals is zero, the other one is the difference, up to its sign. -/
theorem exists_sub?_of_zero {a b : Decimal} (h : a.mantissa = 0 ∨ b.mantissa = 0) :
    ∃ d, a.sub? b = some d ∧ d.worth = a.worth - b.worth := by
  rw [sub?]
  split_ifs with ha hb hb
  · exact ⟨b, rfl, by rw [worth_eq_zero ha, worth_eq_zero hb, sub_zero]⟩
  · exact ⟨b.neg, rfl, by rw [worth_eq_zero ha, worth_neg, zero_sub]⟩
  · exact ⟨a, rfl, by rw [worth_eq_zero hb, sub_zero]⟩
  · exact absurd h (not_or.2 ⟨ha, hb⟩)

theorem toEven_abs_worth_lt (d : Decimal) : Rounding.toEven |d.worth| < mantissaBound :=
  Int.lt_of_le_sub_one (Rounding.toEven_le (abs_worth d ▸ d.magnitude_le))

/-- What two decimals differ by, as a quotient. -/
theorem abs_sub_mul_pow (a b : Decimal) {kept dropped : Nat}
    (h : kept + dropped = commonScale a b) :
    |a.worth - b.worth| * 10 ^ kept = gap a b / (10 ^ dropped : Nat) := by
  rw [cast_gap, ← h, pow_add]
  push_cast
  field_simp

/-- Two decimals have no difference exactly if the integer nearest to it leaves the range. -/
theorem sub?_eq_none_iff {a b : Decimal} :
    a.sub? b = none ↔ (mantissaBound : ℤ) ≤ Rounding.toEven |a.worth - b.worth| := by
  by_cases hzero : a.mantissa = 0 ∨ b.mantissa = 0
  · obtain ⟨d, hd, hworth⟩ := exists_sub?_of_zero hzero
    rw [hd, ← hworth]
    exact iff_of_false nofun (Int.not_le.2 d.toEven_abs_worth_lt)
  · obtain ⟨ha, hb⟩ := not_or.1 hzero
    have hgap := abs_sub_mul_pow a b (Nat.zero_add _)
    rw [pow_zero, mul_one] at hgap
    rw [sub?_of_ne ha hb, fit?_eq_none_iff (commonScale_le a b), Nat.zero_add, hgap,
      Rounding.toEven_div _ (by positivity), Int.ofNat_le]

-- Half a unit above the largest decimal the nearest even number is out of range.
example :
    let largest : Decimal := ⟨false, mantissaBound - 1, 0, by decide, by decide⟩
    largest.sub? ⟨true, 5, 1, by decide, by decide⟩ = none ∧
      largest.sub? ⟨true, 49, 2, by decide, by decide⟩ = some largest := by
  decide

/-- The difference is what the decimals differ by, rounded to its places. -/
theorem worth_of_sub? {a b d : Decimal} (h : a.sub? b = some d) :
    d.worth = signFactor (decide (a.worth < b.worth)) *
      (Rounding.toEven (|a.worth - b.worth| * 10 ^ d.scale) / 10 ^ d.scale) := by
  by_cases hzero : a.mantissa = 0 ∨ b.mantissa = 0
  · obtain ⟨d', hd', hworth⟩ := exists_sub?_of_zero hzero
    obtain rfl := Option.some.inj (hd'.symm.trans h)
    have hwhole : |a.worth - b.worth| * 10 ^ d'.scale = d'.mantissa := by
      rw [← hworth, abs_worth, magnitude, div_mul_cancel₀ _ (by positivity)]
    rw [hwhole, Rounding.toEven_natCast, Int.cast_natCast, ← hwhole,
      mul_div_cancel_right₀ _ (by positivity), signFactor_mul_abs, hworth]
  · obtain ⟨ha, hb⟩ := not_or.1 hzero
    rw [sub?_of_ne ha hb] at h
    obtain ⟨hnegative, dropped, hscale, hmantissa⟩ := parts_of_fit? h
    rw [worth, magnitude, hnegative, hmantissa, Nat.zero_add, abs_sub_mul_pow a b hscale,
      Rounding.toEven_div _ (by positivity), Int.cast_natCast]

/-- The difference is exact where it fits at the larger of the two scales. -/
theorem exists_sub?_of_lt {a b : Decimal}
    (h : |a.worth - b.worth| * 10 ^ max a.scale b.scale < mantissaBound) :
    ∃ d, a.sub? b = some d ∧ d.worth = a.worth - b.worth := by
  by_cases hzero : a.mantissa = 0 ∨ b.mantissa = 0
  · exact exists_sub?_of_zero hzero
  · obtain ⟨ha, hb⟩ := not_or.1 hzero
    have hgap : gap a b < mantissaBound := by
      have : (gap a b : ℚ) < (mantissaBound : Nat) := cast_gap a b ▸ h
      exact_mod_cast this
    refine ⟨_, (sub?_of_ne ha hb).trans (fit?_of_lt hgap (commonScale_le a b) _), ?_⟩
    rw [worth, magnitude, cast_gap, mul_div_cancel_right₀ _ (by positivity), signFactor_mul_abs]

/-- Two decimals on one side of zero have a difference, whichever is larger. -/
theorem exists_sub?_of_same_side {a b : Decimal}
    (h : 0 ≤ a.worth ∧ 0 ≤ b.worth ∨ a.worth ≤ 0 ∧ b.worth ≤ 0) : ∃ d, a.sub? b = some d := by
  have ha := abs_worth a ▸ a.magnitude_le
  have hb := abs_worth b ▸ b.magnitude_le
  have hgap : |a.worth - b.worth| ≤ (mantissaBound - 1 : ℤ) := by
    rcases h with ⟨ha0, hb0⟩ | ⟨ha0, hb0⟩
    · exact abs_sub_le_of_nonneg_of_le ha0 ((le_abs_self _).trans ha) hb0 ((le_abs_self _).trans hb)
    · rw [abs_sub_comm, ← neg_sub_neg]
      exact abs_sub_le_of_nonneg_of_le (neg_nonneg.2 ha0) ((neg_le_abs _).trans ha)
        (neg_nonneg.2 hb0) ((neg_le_abs _).trans hb)
  refine Option.ne_none_iff_exists'.1 fun hnone => ?_
  have := Rounding.toEven_le hgap
  have := sub?_eq_none_iff.1 hnone
  omega

end Decimal

end MarketFeed
