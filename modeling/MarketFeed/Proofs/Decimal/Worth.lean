import Mathlib.Algebra.Order.Field.Rat
import Mathlib.Tactic.FieldSimp
import Mathlib.Tactic.Linarith
import Mathlib.Tactic.Positivity
import Mathlib.Tactic.Ring
import MarketFeed.Decimal.Reading
import MarketFeed.Proofs.Outcome
import MarketFeed.Proofs.Text.Digits

/-!
# What decimals are worth

A decimal is worth a rational number (`Decimal.worth`).  The numbers that decimals are worth are
those with a mantissa and a scale in range (`Decimal.Fits`), up to a sign.
-/

namespace MarketFeed

namespace Decimal

/-- The factor that a sign stands for. -/
def signFactor (negative : Bool) : ℚ := if negative then -1 else 1

/-- What a decimal is worth but for its sign. -/
def magnitude (d : Decimal) : ℚ := d.mantissa / 10 ^ d.scale

/-- The number that a decimal stands for. -/
def worth (d : Decimal) : ℚ := signFactor d.negative * d.magnitude

/-- There is a decimal of the given worth. -/
def IsRepresentable (q : ℚ) : Prop := ∃ d : Decimal, d.worth = q

/-! ### Parts -/

theorem parts_of_ofParts? {negative : Bool} {m k : Nat} {d : Decimal}
    (h : ofParts? negative m k = some d) :
    d.negative = negative ∧ d.mantissa = m ∧ d.scale = k := by
  unfold ofParts? at h
  split at h
  · cases h
    exact ⟨rfl, rfl, rfl⟩
  · cases h

theorem ofParts?_eq_none_iff {negative : Bool} {m k : Nat} (hk : k ≤ maxScale) :
    ofParts? negative m k = none ↔ mantissaBound ≤ m := by
  unfold ofParts?
  split_ifs with h
  · exact iff_of_false nofun (Nat.not_le.2 h.1)
  · exact iff_of_true rfl (Nat.le_of_not_lt fun hm => h ⟨hm, hk⟩)

/-! ### Worth -/

theorem abs_signFactor_mul (negative : Bool) {x : ℚ} (hx : 0 ≤ x) :
    |signFactor negative * x| = x := by
  cases negative <;> simp [signFactor, abs_of_nonneg hx]

theorem magnitude_nonneg (d : Decimal) : 0 ≤ d.magnitude := by
  unfold magnitude
  positivity

/-- The signed mantissa at a scale that is large enough is the worth at that scale. -/
theorem cast_signedAt {d : Decimal} {scale : Nat} (h : d.scale ≤ scale) :
    (d.signedAt scale : ℚ) = d.worth * 10 ^ scale := by
  obtain ⟨k, rfl⟩ := Nat.exists_eq_add_of_le h
  have hpow : (10 : ℚ) ^ d.scale ≠ 0 := by positivity
  have hk : ((Int.pow 10 (d.scale + k - d.scale) : ℤ) : ℚ) = 10 ^ k := by
    rw [Nat.add_sub_cancel_left]
    exact Int.cast_pow 10 k
  rw [signedAt, Int.cast_mul, hk, worth, magnitude, signed, signFactor, pow_add]
  cases d.negative <;> simp <;> field_simp

/-- A decimal compares as less exactly if it is worth less, whatever the scales are. -/
theorem worthLess_iff {a b : Decimal} : a.worthLess b = true ↔ a.worth < b.worth := by
  have hpow : (0 : ℚ) < 10 ^ max a.scale b.scale := by positivity
  rw [worthLess, decide_eq_true_iff, ← @Int.cast_lt ℚ, cast_signedAt (le_max_left _ _),
    cast_signedAt (le_max_right _ _), mul_lt_mul_iff_left₀ hpow]

@[simp] theorem magnitude_plainZero (d : Decimal) : d.plainZero.magnitude = d.magnitude := rfl

@[simp] theorem worth_plainZero (d : Decimal) : d.plainZero.worth = d.worth := by
  obtain ⟨negative, m, k, hm, hk⟩ := d
  by_cases h : m = 0
  · simp [worth, magnitude, plainZero, h]
  · have hne : (m != 0) = true := bne_iff_ne.2 h
    simp [worth, magnitude, plainZero, hne]

/-- A number without sign that a mantissa and a scale make up. -/
def Fits (x : ℚ) : Prop := ∃ m k : Nat, m < mantissaBound ∧ k ≤ maxScale ∧ x = m / 10 ^ k

theorem isRepresentable_iff_fits (negative : Bool) {x : ℚ} (hx : 0 ≤ x) :
    IsRepresentable (signFactor negative * x) ↔ Fits x := by
  constructor
  · rintro ⟨d, hd⟩
    refine ⟨d.mantissa, d.scale, d.mantissa_lt, d.scale_le, ?_⟩
    rw [← abs_signFactor_mul negative hx, ← hd, worth, abs_signFactor_mul _ d.magnitude_nonneg]
    rfl
  · rintro ⟨m, k, hm, hk, rfl⟩
    exact ⟨⟨negative, m, k, hm, hk⟩, rfl⟩

/-- Where a number below the bound fits when it is divided by a power of ten, it fits itself. -/
theorem fits_of_div {x : ℚ} {places : Nat} (hx : x < mantissaBound)
    (h : Fits (x / 10 ^ places)) : Fits x := by
  obtain ⟨m, k, hm, hk, he⟩ := h
  have hx' : x = m / 10 ^ k * 10 ^ places := by
    rw [← he]
    field_simp
  rcases Nat.le_total places k with hle | hle
  · obtain ⟨j, rfl⟩ := Nat.exists_eq_add_of_le hle
    refine ⟨m, j, hm, by omega, ?_⟩
    rw [hx', pow_add]
    field_simp
  · obtain ⟨j, rfl⟩ := Nat.exists_eq_add_of_le hle
    have hnat : x = ((m * 10 ^ j : Nat) : ℚ) := by
      rw [hx', pow_add]
      push_cast
      field_simp
    rw [hnat] at hx ⊢
    exact ⟨m * 10 ^ j, 0, by exact_mod_cast hx, Nat.zero_le _, by simp⟩

/-! ### Digits that do not fit -/

/-- No further place can be taken: they are all used, or the next digit would leave the range. -/
def IsFull (m k : Nat) (ds : List Digit) : Prop :=
  k = maxScale ∨ ∃ d es, ds = d :: es ∧ mantissaBound ≤ m * 10 + d.val

/-- Where no further place can be taken, digits that are not all zero make the number unfit. -/
theorem not_fits_of_isFull {m k : Nat} {ds : List Digit} (hfull : IsFull m k ds)
    (hvalue : Digits.value ds ≠ 0) :
    ¬Fits (Digits.valueFrom m ds / 10 ^ (k + ds.length)) := by
  rintro ⟨n, j, hn, hj, he⟩
  have hcross : Digits.valueFrom m ds * 10 ^ j = n * 10 ^ (k + ds.length) := by
    rw [div_eq_div_iff (by positivity) (by positivity)] at he
    exact_mod_cast he
  -- With no more places than are taken, the digits behind them would have to be zero.
  have hmore : k < j := by
    by_contra hle
    obtain ⟨i, rfl⟩ := Nat.exists_eq_add_of_le (Nat.le_of_not_lt hle)
    have htaken : Digits.valueFrom m ds = n * 10 ^ i * 10 ^ ds.length := by
      refine Nat.eq_of_mul_eq_mul_right (Nat.pow_pos (by decide) : 0 < 10 ^ j) ?_
      rw [hcross]
      ring
    have hdvd : 10 ^ ds.length ∣ Digits.value ds := by
      rw [Digits.valueFrom_eq] at htaken
      exact (Nat.dvd_add_right (Dvd.intro_left m rfl)).1 (htaken ▸ Dvd.intro_left _ rfl)
    exact hvalue (Nat.eq_zero_of_dvd_of_lt hdvd (Digits.value_lt ds))
  rcases hfull with rfl | ⟨d, es, rfl, hd⟩
  · exact absurd hj (Nat.not_le.2 hmore)
  · -- With one more place the digits that fit would already leave the range.
    obtain ⟨i, rfl⟩ := Nat.exists_eq_add_of_lt hmore
    have hle : (m * 10 + d.val) * 10 ^ i ≤ n := by
      refine Nat.le_of_mul_le_mul_right ?_ (Nat.pow_pos (by decide) : 0 < 10 ^ (k + 1 + es.length))
      calc (m * 10 + d.val) * 10 ^ i * 10 ^ (k + 1 + es.length)
          = (m * 10 + d.val) * 10 ^ es.length * 10 ^ (k + i + 1) := by ring
        _ ≤ Digits.valueFrom m (d :: es) * 10 ^ (k + i + 1) := by
            rw [Digits.valueFrom_cons, Digits.valueFrom_eq]
            exact Nat.mul_le_mul_right _ (Nat.le_add_right _ _)
        _ = n * 10 ^ (k + 1 + es.length) := by
            rw [hcross, List.length_cons]
            ring
    have hone : m * 10 + d.val ≤ (m * 10 + d.val) * 10 ^ i :=
      Nat.le_mul_of_pos_right _ (Nat.pow_pos (by decide))
    omega

end Decimal

end MarketFeed
