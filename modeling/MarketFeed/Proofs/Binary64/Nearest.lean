import Mathlib.Algebra.Order.Field.Power
import Mathlib.Algebra.Order.Field.Rat
import Mathlib.Tactic.FieldSimp
import Mathlib.Tactic.Linarith
import Mathlib.Tactic.NormNum
import Mathlib.Tactic.Positivity
import Mathlib.Tactic.Ring
import MarketFeed.Binary64.Basic
import MarketFeed.Proofs.Rounding

/-!
# The nearest double precision number

A double precision number stands for the magnitude `Binary64.size` and covers the numbers between
the midpoints to its neighbours (`Binary64.Covers`).  Rounding a ratio gives a number that covers it
(`Binary64.nearest_of_round?`), and whole numbers of up to 53 bits are kept as they are
(`Binary64.round?_whole`).
-/

namespace MarketFeed

namespace Binary64

/-! ### Powers of two -/

theorem zpow_eq_div {a : ℚ} (ha : a ≠ 0) (e : ℤ) : a ^ e = a ^ e.toNat / a ^ (-e).toNat := by
  rw [← zpow_natCast, ← zpow_natCast, ← zpow_sub₀ ha]
  congr 1
  omega

theorem shifted_ratio (n : Nat) {d : Nat} (hd : 0 < d) (e : ℤ) :
    0 < (shifted n d e).2 ∧
      ((shifted n d e).1 : ℚ) / (shifted n d e).2 = (n : ℚ) / d * 2 ^ e := by
  rw [shifted, Nat.pow_eq, Nat.pow_eq, zpow_eq_div two_ne_zero]
  refine ⟨by positivity, ?_⟩
  push_cast
  field_simp

/-! ### The numbers around one -/

/-- The magnitude of a number. -/
def size (x : Binary64) : ℚ := x.significand * 2 ^ x.exponent

/-- The part of the last place by which the lower midpoint is away: below a power of two the gap is
half as wide. -/
def slack (x : Binary64) : ℚ :=
  if x.significand = 2 ^ 52 ∧ minExponent < x.exponent then 1 / 4 else 1 / 2

/-- The lower midpoint. -/
def low (x : Binary64) : ℚ := (x.significand - x.slack) * 2 ^ x.exponent

/-- The upper midpoint. -/
def high (x : Binary64) : ℚ := (x.significand + 1 / 2) * 2 ^ x.exponent

/-- A magnitude lies between the midpoints, which themselves count for an even significand. -/
def Covers (x : Binary64) (q : ℚ) : Prop :=
  if x.significand % 2 = 0 then x.low ≤ q ∧ q ≤ x.high else x.low < q ∧ q < x.high

/-- A significand and an exponent are in range, and no place of the significand is given away. -/
structure IsNormal (x : Binary64) : Prop where
  lt : x.significand < 2 ^ 53
  least : minExponent ≤ x.exponent
  full : minExponent < x.exponent → 2 ^ 52 ≤ x.significand

/-! ### Rounding -/

/-- A ratio lies within a factor of two of the quotient of the powers of two below its parts. -/
theorem ratio_bounds {n d : Nat} (hn : 0 < n) (hd : 0 < d) :
    (2 : ℚ) ^ 52 * 2 ^ ((n.log2 : ℤ) - d.log2 - 53) ≤ (n : ℚ) / d ∧
      (n : ℚ) / d < 2 ^ 53 * 2 ^ ((n.log2 : ℤ) - d.log2 - 53 + 1) := by
  have hn₁ : (2 : ℚ) ^ n.log2 ≤ n := by exact_mod_cast Nat.log2_self_le hn.ne'
  have hn₂ : (n : ℚ) < 2 ^ (n.log2 + 1) := by exact_mod_cast Nat.lt_log2_self
  have hd₁ : (2 : ℚ) ^ d.log2 ≤ d := by exact_mod_cast Nat.log2_self_le hd.ne'
  have hd₂ : (d : ℚ) < 2 ^ (d.log2 + 1) := by exact_mod_cast Nat.lt_log2_self
  have hdpos : (0 : ℚ) < d := by exact_mod_cast hd
  have hlow : (2 : ℚ) ^ 52 * 2 ^ ((n.log2 : ℤ) - d.log2 - 53) = 2 ^ n.log2 / 2 ^ (d.log2 + 1) := by
    rw [← zpow_natCast, ← zpow_natCast, ← zpow_natCast, ← zpow_add₀ two_ne_zero,
      ← zpow_sub₀ two_ne_zero]
    congr 1
    push_cast
    ring
  have hhigh : (2 : ℚ) ^ 53 * 2 ^ ((n.log2 : ℤ) - d.log2 - 53 + 1) =
      2 ^ (n.log2 + 1) / 2 ^ d.log2 := by
    rw [← zpow_natCast, ← zpow_natCast, ← zpow_natCast, ← zpow_add₀ two_ne_zero,
      ← zpow_sub₀ two_ne_zero]
    congr 1
    push_cast
    ring
  rw [hlow, hhigh, div_le_div_iff₀ (by positivity) hdpos, div_lt_div_iff₀ hdpos (by positivity)]
  constructor
  · exact mul_le_mul hn₁ hd₂.le hdpos.le (by positivity)
  · exact mul_lt_mul hn₂ hd₁ (by positivity) (by positivity)

/-- The exponent gives a significand of 53 bits, or of less where it is the least one. -/
theorem exponentOf_bounds {n d : Nat} (hn : 0 < n) (hd : 0 < d) :
    (n : ℚ) / d < 2 ^ 53 * 2 ^ exponentOf n d ∧ minExponent ≤ exponentOf n d ∧
      (minExponent < exponentOf n d → 2 ^ 52 * 2 ^ exponentOf n d ≤ (n : ℚ) / d) := by
  obtain ⟨hlow, hhigh⟩ := ratio_bounds hn hd
  unfold exponentOf
  dsimp only
  generalize (n.log2 : ℤ) - d.log2 - 53 = e at hlow hhigh ⊢
  obtain ⟨hpos, hratio⟩ := shifted_ratio n hd (-e)
  have hposq : (0 : ℚ) < (shifted n d (-e)).2 := by exact_mod_cast hpos
  -- The quotient has at most 53 bits exactly if the ratio does at this exponent.
  have hquot : (shifted n d (-e)).1 / (shifted n d (-e)).2 < Nat.pow 2 53 ↔
      (n : ℚ) / d < 2 ^ 53 * 2 ^ e := by
    rw [Nat.div_lt_iff_lt_mul hpos, ← @Nat.cast_lt ℚ, Nat.cast_mul, ← div_lt_iff₀ hposq, hratio,
      zpow_neg, ← div_eq_mul_inv, div_lt_iff₀ (by positivity)]
    norm_num
  obtain ⟨E, hE, hlt, hle⟩ : ∃ E, (if (shifted n d (-e)).1 / (shifted n d (-e)).2 < Nat.pow 2 53
      then e else e + 1) = E ∧ (n : ℚ) / d < 2 ^ 53 * 2 ^ E ∧ 2 ^ 52 * 2 ^ E ≤ (n : ℚ) / d := by
    by_cases hsmall : (shifted n d (-e)).1 / (shifted n d (-e)).2 < Nat.pow 2 53
    · exact ⟨e, if_pos hsmall, hquot.1 hsmall, hlow⟩
    · refine ⟨e + 1, if_neg hsmall, hhigh, ?_⟩
      rw [hquot, not_lt] at hsmall
      rw [zpow_add_one₀ two_ne_zero]
      linarith
  rw [hE]
  refine ⟨lt_of_lt_of_le hlt ?_, le_max_left _ _, fun hmin => ?_⟩
  · gcongr
    · norm_num
    · exact le_max_right _ _
  · rwa [max_eq_right (by omega)]

/-- The rounded significand of a ratio at an exponent. -/
def roundedAt (n d : Nat) (e : ℤ) : Nat :=
  Rounding.halfEven (shifted n d (-e)).1 (shifted n d (-e)).2

theorem roundedAt_bounds (n : Nat) {d : Nat} (hd : 0 < d) (e : ℤ) :
    (((roundedAt n d e : ℚ) - 1 / 2) * 2 ^ e ≤ (n : ℚ) / d ∧
        (n : ℚ) / d ≤ ((roundedAt n d e : ℚ) + 1 / 2) * 2 ^ e) ∧
      (roundedAt n d e % 2 = 1 → ((roundedAt n d e : ℚ) - 1 / 2) * 2 ^ e < (n : ℚ) / d ∧
        (n : ℚ) / d < ((roundedAt n d e : ℚ) + 1 / 2) * 2 ^ e) := by
  obtain ⟨hpos, hratio⟩ := shifted_ratio n hd (-e)
  have hposq : (0 : ℚ) < (shifted n d (-e)).2 := by exact_mod_cast hpos
  have htwo : (0 : ℚ) < 2 ^ e := by positivity
  have hq : (n : ℚ) / d = (shifted n d (-e)).1 / (shifted n d (-e)).2 * 2 ^ e := by
    rw [hratio, zpow_neg]
    field_simp
  obtain ⟨⟨hlow, hhigh⟩, hodd⟩ := Rounding.halfEven_bounds (shifted n d (-e)).1 hpos
  rw [← roundedAt] at hlow hhigh hodd
  rw [hq]
  generalize (shifted n d (-e)).1 = a at *
  generalize (shifted n d (-e)).2 = c at *
  generalize roundedAt n d e = m at *
  simp only [mul_le_mul_iff_left₀ htwo, mul_lt_mul_iff_left₀ htwo, le_div_iff₀ hposq,
    div_le_iff₀ hposq, lt_div_iff₀ hposq, div_lt_iff₀ hposq]
  have hlow' : (2 * m * c : ℚ) ≤ 2 * a + c := by exact_mod_cast hlow
  have hhigh' : (2 * a : ℚ) ≤ 2 * m * c + c := by exact_mod_cast hhigh
  refine ⟨⟨by linarith, by linarith⟩, fun hm => ?_⟩
  obtain ⟨hlow, hhigh⟩ := hodd hm
  have hlow' : (2 * m * c : ℚ) < 2 * a + c := by exact_mod_cast hlow
  have hhigh' : (2 * a : ℚ) < 2 * m * c + c := by exact_mod_cast hhigh
  exact ⟨by linarith, by linarith⟩

/-- A ratio is rounded to its significand at its exponent, or to a power of two if that carries. -/
theorem round?_eq {n : Nat} (hn : 0 < n) (d : Nat) :
    round? n d =
      if roundedAt n d (exponentOf n d) = 2 ^ 53 then
        if maxExponent < exponentOf n d + 1 then none
        else some ⟨false, 2 ^ 52, exponentOf n d + 1⟩
      else if maxExponent < exponentOf n d then none
        else some ⟨false, roundedAt n d (exponentOf n d), exponentOf n d⟩ := by
  have hrounded : Rounding.halfEven (shifted n d (-exponentOf n d)).1
      (shifted n d (-exponentOf n d)).2 = roundedAt n d (exponentOf n d) := rfl
  rw [round?, if_neg hn.ne']
  simp only [Nat.pow_eq, hrounded]
  by_cases hcarry : roundedAt n d (exponentOf n d) = 2 ^ 53
  · rw [if_pos hcarry, if_pos hcarry]
  · rw [if_neg hcarry, if_neg hcarry]

theorem covers_of_bounds {x : Binary64} {q : ℚ}
    (h : ((x.significand : ℚ) - 1 / 2) * 2 ^ x.exponent ≤ q ∧ q ≤ x.high)
    (hodd : x.significand % 2 = 1 → ((x.significand : ℚ) - 1 / 2) * 2 ^ x.exponent < q ∧ q < x.high)
    (hfull : minExponent < x.exponent → 2 ^ 52 * 2 ^ x.exponent ≤ q) : x.Covers q := by
  have htwo : (0 : ℚ) < 2 ^ x.exponent := by positivity
  unfold Covers low slack
  by_cases hedge : x.significand = 2 ^ 52 ∧ minExponent < x.exponent
  · have hm : (x.significand : ℚ) = 2 ^ 52 := by exact_mod_cast hedge.1
    have hle := hfull hedge.2
    rw [if_pos hedge, if_pos (by rw [hedge.1]; rfl)]
    refine ⟨?_, h.2⟩
    rw [hm]
    linarith
  · rw [if_neg hedge]
    split
    · exact h
    · exact hodd (by omega)

/-- A number with the least significand covers a ratio that a significand of all bits is rounded up
from. -/
theorem covers_of_carry {e : ℤ} {q : ℚ} (hmin : minExponent ≤ e) (hlt : q < 2 ^ 53 * 2 ^ e)
    (hle : (2 ^ 53 - 1 / 2) * 2 ^ e ≤ q) : Covers ⟨false, 2 ^ 52, e + 1⟩ q := by
  have htwo : (0 : ℚ) < 2 ^ e := by positivity
  have hedge : minExponent < e + 1 := by omega
  unfold Covers low high slack
  dsimp only
  rw [if_pos (by norm_num), if_pos ⟨rfl, hedge⟩, zpow_add_one₀ two_ne_zero]
  push_cast
  constructor <;> linarith

/-- A ratio is rounded to a number that covers it. -/
theorem nearest_of_round? {n d : Nat} (hn : 0 < n) (hd : 0 < d) {x : Binary64}
    (h : round? n d = some x) : x.IsNormal ∧ x.Covers ((n : ℚ) / d) := by
  obtain ⟨hlt, hmin, hfull⟩ := exponentOf_bounds hn hd
  obtain ⟨hbounds, hodd⟩ := roundedAt_bounds n hd (exponentOf n d)
  rw [round?_eq hn] at h
  generalize exponentOf n d = e at *
  generalize roundedAt n d e = m at *
  generalize (n : ℚ) / d = q at *
  have htwo : (0 : ℚ) < 2 ^ e := by positivity
  split at h
  · next hcarry =>
    split at h
    · cases h
    · obtain rfl := Option.some.inj h
      have hm : (m : ℚ) = 2 ^ 53 := by exact_mod_cast hcarry
      rw [hm] at hbounds
      exact ⟨⟨by norm_num, by dsimp only; omega, fun _ => le_rfl⟩,
        covers_of_carry hmin hlt hbounds.1⟩
  · next hcarry =>
    split at h
    · cases h
    · obtain rfl := Option.some.inj h
      have hm : m < 2 ^ 53 := by
        have hm : ((m : ℚ) - 1 / 2) * 2 ^ e < 2 ^ 53 * 2 ^ e := lt_of_le_of_lt hbounds.1 hlt
        have hm := lt_of_mul_lt_mul_right hm htwo.le
        have : (m : ℚ) < (2 ^ 53 + 1 : Nat) := by
          push_cast
          linarith
        have : m < 2 ^ 53 + 1 := by exact_mod_cast this
        omega
      refine ⟨⟨hm, hmin, fun hedge => ?_⟩, covers_of_bounds hbounds hodd hfull⟩
      have hle : (2 : ℚ) ^ 52 * 2 ^ e ≤ (m + 1 / 2) * 2 ^ e := (hfull hedge).trans hbounds.2
      have hle := le_of_mul_le_mul_right hle htwo
      have : ((2 ^ 52 : Nat) : ℚ) < (m + 1 : Nat) := by
        push_cast
        linarith
      have : 2 ^ 52 < m + 1 := by exact_mod_cast this
      exact Nat.le_of_lt_succ this

/-- A ratio is out of range only if it is beyond the largest numbers. -/
theorem le_of_round?_eq_none {n d : Nat} (hn : 0 < n) (hd : 0 < d) (h : round? n d = none) :
    2 ^ 52 * 2 ^ maxExponent ≤ (n : ℚ) / d := by
  obtain ⟨_, _, hfull⟩ := exponentOf_bounds hn hd
  have hlarge : maxExponent ≤ exponentOf n d := by
    rw [round?_eq hn] at h
    split at h <;> split at h
    · omega
    · cases h
    · omega
    · cases h
  refine le_trans ?_ (hfull (lt_of_lt_of_le (by decide) hlarge))
  gcongr
  norm_num

/-- A ratio with a whole significand at an exponent is rounded to that significand. -/
theorem roundedAt_eq {n d i : Nat} {e : ℤ} (hd : 0 < d) (h : (n : ℚ) / d = i * 2 ^ e) :
    roundedAt n d e = i := by
  have htwo : (0 : ℚ) < 2 ^ e := by positivity
  obtain ⟨hlow, hhigh⟩ := (roundedAt_bounds n hd e).1
  rw [h] at hlow hhigh
  have hlow := le_of_mul_le_mul_right hlow htwo
  have hhigh := le_of_mul_le_mul_right hhigh htwo
  have hle : (roundedAt n d e : ℚ) < (i + 1 : Nat) := by
    push_cast
    linarith
  have hge : (i : ℚ) < (roundedAt n d e + 1 : Nat) := by
    push_cast
    linarith
  have hle : roundedAt n d e < i + 1 := by exact_mod_cast hle
  have hge : i < roundedAt n d e + 1 := by exact_mod_cast hge
  omega

/-- A whole number with up to 53 bits before its zeros needs no smaller exponent. -/
theorem exponentOf_whole_le {m k : Nat} (hm : 0 < m) (hlt : m < 2 ^ 53) :
    exponentOf (m * 2 ^ k) 1 ≤ k := by
  by_contra hlarge
  obtain ⟨_, _, hfull⟩ := exponentOf_bounds (show 0 < m * 2 ^ k by positivity) one_pos
  generalize exponentOf (m * 2 ^ k) 1 = e at *
  have hfull := hfull (by unfold minExponent; omega)
  have hm' : (m : ℚ) < 2 ^ 53 := by exact_mod_cast hlt
  have hpow : (2 : ℚ) * 2 ^ k ≤ 2 ^ e := by
    rw [← zpow_natCast, ← zpow_one_add₀ two_ne_zero]
    exact zpow_le_zpow_right₀ (by norm_num) (by omega)
  have hbelow : (m : ℚ) * 2 ^ k < 2 ^ 53 * 2 ^ k := by gcongr
  push_cast at hfull
  linarith

/-- A whole number is kept if its significand has up to 53 bits. -/
theorem round?_whole {m k : Nat} (hm : 0 < m) (hlt : m < 2 ^ 53) (hk : k ≤ 900) :
    ∃ x, round? (m * 2 ^ k) 1 = some x ∧ x.size = m * 2 ^ k ∧ 0 < x.significand := by
  have hpos : 0 < m * 2 ^ k := by positivity
  have hbelow := (exponentOf_bounds hpos one_pos).1
  have hle := exponentOf_whole_le (k := k) hm hlt
  have hround := round?_eq hpos 1
  generalize exponentOf (m * 2 ^ k) 1 = e at *
  obtain ⟨j, hj⟩ := Int.exists_add_of_le hle
  have hwhole : (m : ℚ) * 2 ^ k = ((m * 2 ^ j : Nat) : ℚ) * 2 ^ e := by
    rw [← zpow_natCast, hj, zpow_add₀ two_ne_zero]
    push_cast
    rw [zpow_natCast]
    ring
  have hratio : ((m * 2 ^ k : Nat) : ℚ) / (1 : Nat) = ((m * 2 ^ j : Nat) : ℚ) * 2 ^ e := by
    rw [← hwhole]
    push_cast
    ring
  rw [hratio] at hbelow
  have hsmall : m * 2 ^ j < 2 ^ 53 := by
    exact_mod_cast lt_of_mul_lt_mul_right hbelow (by positivity)
  have hrange : ¬maxExponent < e := by
    unfold maxExponent
    omega
  rw [roundedAt_eq one_pos hratio, if_neg hsmall.ne, if_neg hrange] at hround
  exact ⟨_, hround, hwhole.symm, by positivity⟩

theorem isNormal_zero (negative : Bool) : (zero negative).IsNormal :=
  ⟨Nat.pow_pos two_pos, le_rfl, fun h => absurd h (lt_irrefl _)⟩

theorem isNormal_of_round? {n d : Nat} (hd : 0 < d) {x : Binary64} (h : round? n d = some x) :
    x.IsNormal := by
  rcases Nat.eq_zero_or_pos n with rfl | hn
  · obtain rfl := Option.some.inj h
    exact isNormal_zero false
  · exact (nearest_of_round? hn hd h).1

/-- A number that covers more than half of the least one is not zero. -/
theorem significand_pos {x : Binary64} (hx : x.IsNormal) {q : ℚ} (h : x.Covers q)
    (hq : 2 ^ minExponent ≤ q) : 0 < x.significand := by
  by_contra hzero
  have hm : x.significand = 0 := by omega
  have he : x.exponent = minExponent := by
    by_contra hne
    have := hx.full (lt_of_le_of_ne hx.least (Ne.symm hne))
    omega
  unfold Covers high at h
  rw [if_pos (by rw [hm]), hm, he] at h
  have htwo : (0 : ℚ) < 2 ^ minExponent := by positivity
  have := h.2
  push_cast at this
  linarith

/-! ### Products and quotients -/

theorem mul?_ratio (a b : Binary64) :
    0 < (shifted (a.significand * b.significand) 1 (a.exponent + b.exponent)).2 ∧
      ((shifted (a.significand * b.significand) 1 (a.exponent + b.exponent)).1 : ℚ) /
        (shifted (a.significand * b.significand) 1 (a.exponent + b.exponent)).2 =
          a.size * b.size := by
  obtain ⟨hpos, hratio⟩ := shifted_ratio (a.significand * b.significand) one_pos
    (a.exponent + b.exponent)
  refine ⟨hpos, hratio.trans ?_⟩
  rw [size, size, zpow_add₀ two_ne_zero]
  push_cast
  ring

theorem div?_ratio (a : Binary64) {b : Binary64} (hb : 0 < b.significand) :
    0 < (shifted a.significand b.significand (a.exponent - b.exponent)).2 ∧
      ((shifted a.significand b.significand (a.exponent - b.exponent)).1 : ℚ) /
        (shifted a.significand b.significand (a.exponent - b.exponent)).2 = a.size / b.size := by
  obtain ⟨hpos, hratio⟩ := shifted_ratio a.significand hb (a.exponent - b.exponent)
  refine ⟨hpos, hratio.trans ?_⟩
  have hb' : (b.significand : ℚ) ≠ 0 := by positivity
  rw [size, size, zpow_sub₀ two_ne_zero]
  field_simp

/-- A ratio that is not zero and in range is rounded to a number that covers it. -/
theorem exists_round? {n d : Nat} {q : ℚ} (hd : 0 < d) (hratio : (n : ℚ) / d = q) (hpos : 0 < q)
    (hlt : q < 2 ^ 52 * 2 ^ maxExponent) :
    ∃ x, round? n d = some x ∧ x.IsNormal ∧ x.Covers q := by
  have hn : 0 < n := by
    rw [Nat.pos_iff_ne_zero]
    rintro rfl
    rw [Nat.cast_zero, zero_div] at hratio
    exact hpos.ne hratio
  subst hratio
  cases h : round? n d with
  | none => exact absurd hlt (not_lt.2 (le_of_round?_eq_none hn hd h))
  | some x => exact ⟨x, rfl, nearest_of_round? hn hd h⟩

/-! ### Powers of ten -/

theorem significand_pos_of_power {k : Nat} {x : Binary64}
    (h : round? (Nat.pow 10 k) 1 = some x) : 0 < x.significand := by
  rw [Nat.pow_eq] at h
  obtain ⟨hx, hcovers⟩ := nearest_of_round? (by positivity) one_pos h
  refine significand_pos hx hcovers ?_
  have hone : (1 : ℚ) ≤ ((10 ^ k : Nat) : ℚ) / (1 : Nat) := by
    push_cast
    rw [div_one]
    exact one_le_pow₀ (by norm_num)
  exact le_trans (zpow_le_one_of_nonpos₀ (by norm_num) (by decide)) hone

/-- Every number that is read is normal. -/
theorem isNormal_of_scaled? {significand : Nat} {tens : ℤ} {x : Binary64}
    (h : scaled? significand tens = some x) : x.IsNormal := by
  unfold scaled? at h
  obtain ⟨f, hf, h⟩ := Option.bind_eq_some_iff.1 h
  split at h
  · obtain rfl := Option.some.inj h
    exact isNormal_of_round? one_pos hf
  · dsimp only at h
    split at h
    · split at h
      · cases h
      · obtain ⟨g, _, h⟩ := Option.bind_eq_some_iff.1 h
        exact isNormal_of_round? (mul?_ratio f g).1 h
    · split at h
      · obtain ⟨g, hg, h⟩ := Option.bind_eq_some_iff.1 h
        exact isNormal_of_round? (div?_ratio f (significand_pos_of_power hg)).1 h
      · split at h
        · obtain ⟨_, _, h⟩ := Option.bind_eq_some_iff.1 h
          obtain ⟨y, _, h⟩ := Option.bind_eq_some_iff.1 h
          obtain ⟨g, hg, h⟩ := Option.bind_eq_some_iff.1 h
          exact isNormal_of_round? (div?_ratio y (significand_pos_of_power hg)).1 h
        · obtain rfl := Option.some.inj h
          exact isNormal_zero false

/-- A small power of ten is kept as it is. -/
theorem exists_power {k : Nat} (hk : k ≤ 22) :
    ∃ x, round? (Nat.pow 10 k) 1 = some x ∧ x.size = 10 ^ k ∧ 0 < x.significand := by
  have hpow : Nat.pow 10 k = 5 ^ k * 2 ^ k := by
    rw [← Nat.mul_pow]
    rfl
  have hlt : 5 ^ k < 2 ^ 53 :=
    lt_of_le_of_lt (Nat.pow_le_pow_right (by norm_num) hk) (by norm_num)
  obtain ⟨x, hx, hsize, hpos⟩ := round?_whole (k := k) (by positivity) hlt (by omega)
  refine ⟨x, by rw [hpow, hx], ?_, hpos⟩
  rw [hsize]
  push_cast
  rw [← mul_pow]
  norm_num

/-- A whole number of up to 53 bits with a small power of ten is read as a number that covers it. -/
theorem exists_scaled? {n : Nat} {tens : ℤ} (hn : 0 < n) (hlt : n < 2 ^ 53) (hlow : -22 ≤ tens)
    (hhigh : tens ≤ 22) :
    ∃ x, scaled? n tens = some x ∧ x.IsNormal ∧ x.Covers (n * 10 ^ tens) := by
  obtain ⟨f, hf, hfsize, _⟩ := round?_whole (k := 0) hn hlt (Nat.zero_le _)
  rw [pow_zero, mul_one] at hf hfsize
  have hpos : (0 : ℚ) < n * 10 ^ tens := by positivity
  have hrange : (n : ℚ) * 10 ^ tens < 2 ^ 52 * 2 ^ maxExponent := by
    have hn' : (n : ℚ) < 2 ^ 53 := by exact_mod_cast hlt
    have hten : (10 : ℚ) ^ tens ≤ 10 ^ (22 : ℤ) := zpow_le_zpow_right₀ (by norm_num) hhigh
    have hmax {e : ℤ} (he : 100 ≤ e) : (2 : ℚ) ^ (100 : ℤ) ≤ 2 ^ e :=
      zpow_le_zpow_right₀ one_le_two he
    calc (n : ℚ) * 10 ^ tens < 2 ^ 53 * 10 ^ (22 : ℤ) :=
          mul_lt_mul hn' hten (by positivity) (by positivity)
      _ ≤ 2 ^ 52 * 2 ^ (100 : ℤ) := by norm_num
      _ ≤ 2 ^ 52 * 2 ^ maxExponent :=
          mul_le_mul_of_nonneg_left (hmax (by decide)) (by positivity)
  rw [scaled?, hf, Option.bind_eq_bind, Option.bind_some, if_neg hn.ne']
  dsimp only
  by_cases hnonneg : 0 ≤ tens
  · obtain ⟨k, rfl⟩ := Int.eq_ofNat_of_zero_le hnonneg
    obtain ⟨g, hg, hgsize, _⟩ := exists_power (k := k) (by omega)
    have hsize : f.size * g.size = n * 10 ^ (k : ℤ) := by rw [hfsize, hgsize, zpow_natCast]
    rw [if_pos hnonneg, if_neg (by unfold maxTens; omega), Int.toNat_natCast, hg, Option.bind_some,
      ← hsize]
    obtain ⟨hd, hratio⟩ := mul?_ratio f g
    exact exists_round? hd hratio (hsize ▸ hpos) (hsize ▸ hrange)
  · obtain ⟨k, hk⟩ : ∃ k : Nat, tens = -(k : ℤ) := ⟨(-tens).toNat, by omega⟩
    subst hk
    obtain ⟨g, hg, hgsize, hgpos⟩ := exists_power (k := k) (by omega)
    have hsize : f.size / g.size = n * 10 ^ (-(k : ℤ)) := by
      rw [hfsize, hgsize, zpow_neg, zpow_natCast, div_eq_mul_inv]
    rw [if_neg hnonneg, if_pos (by unfold maxTens; omega), neg_neg, Int.toNat_natCast, hg,
      Option.bind_some, ← hsize]
    obtain ⟨hd, hratio⟩ := div?_ratio f hgpos
    exact exists_round? hd hratio (hsize ▸ hpos) (hsize ▸ hrange)

end Binary64

end MarketFeed
