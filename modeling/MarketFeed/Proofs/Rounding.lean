import Mathlib.Data.Rat.Floor
import Mathlib.Tactic.Linarith
import Mathlib.Tactic.Positivity
import Mathlib.Tactic.Ring
import MarketFeed.Decimal.Basic

/-!
# The nearest integer

`Rounding.toEven` is the integer nearest to a rational number, of two the even one.  A quotient that
is rounded by `Rounding.halfEven` is the integer nearest to it (`toEven_div`).
-/

namespace MarketFeed

namespace Rounding

/-! ### Quotients -/

/-- A quotient that is rounded is at most a half away, and exactly a half only if it is even. -/
theorem halfEven_bounds (n : Nat) {d : Nat} (hd : 0 < d) :
    (2 * halfEven n d * d ≤ 2 * n + d ∧ 2 * n ≤ 2 * halfEven n d * d + d) ∧
      (halfEven n d % 2 = 1 →
        2 * halfEven n d * d < 2 * n + d ∧ 2 * n < 2 * halfEven n d * d + d) := by
  have hdiv := Nat.div_add_mod n d
  have hmod := Nat.mod_lt n hd
  unfold halfEven
  dsimp only
  generalize n / d = q at hdiv ⊢
  generalize n % d = r at hdiv hmod ⊢
  have hq : 2 * q * d = 2 * (d * q) := by ring
  have hq' : 2 * (q + 1) * d = 2 * (d * q) + 2 * d := by ring
  split
  · omega
  · split
    · rw [hq']
      omega
    · -- The remainder is a half.
      rcases Nat.mod_two_eq_zero_or_one q with heven | hodd
      · rw [heven, Nat.add_zero]
        omega
      · rw [hodd, hq']
        omega

@[simp] theorem halfEven_one (n : Nat) : halfEven n 1 = n := by
  simp [halfEven, Nat.mod_one]

/-- A quotient is rounded to an even number or a larger one exactly from the half before it on. -/
theorem le_halfEven_iff {n d m : Nat} (hd : 0 < d) (hm : m % 2 = 0) (hpos : 0 < m) :
    m ≤ halfEven n d ↔ (2 * m - 1) * d ≤ 2 * n := by
  obtain ⟨⟨-, hhigh⟩, hodd⟩ := halfEven_bounds n hd
  have hm' : (2 * m - 1) * d = 2 * m * d - d := by rw [Nat.sub_mul, Nat.one_mul]
  constructor
  · intro hle
    obtain ⟨⟨hlow, -⟩, -⟩ := halfEven_bounds n hd
    have := Nat.mul_le_mul_right d (Nat.mul_le_mul_left 2 hle)
    omega
  · intro hle
    by_contra hlt
    -- The number before an even one is odd, so it is not reached from a half away.
    have hbelow : halfEven n d + 1 ≤ m := by omega
    rcases Nat.lt_or_ge (halfEven n d + 1) m with hfar | hnear
    · have := Nat.mul_le_mul_right d (Nat.mul_le_mul_left 2 hfar)
      have hstep : 2 * (halfEven n d + 1 + 1) * d = 2 * halfEven n d * d + 4 * d := by ring
      rw [Nat.succ_eq_add_one, hstep] at this
      omega
    · obtain rfl : halfEven n d + 1 = m := Nat.le_antisymm hbelow hnear
      have := (hodd (by omega)).2
      have hstep : 2 * (halfEven n d + 1) * d = 2 * halfEven n d * d + 2 * d := by ring
      omega

/-- A larger divisor does not give a quotient that reaches an even number where a smaller one does
not. -/
theorem le_halfEven_of_le {n d d' m : Nat} (hd : 0 < d) (hle : d ≤ d') (hm : m % 2 = 0)
    (hpos : 0 < m) (h : m ≤ halfEven n d') : m ≤ halfEven n d := by
  rw [le_halfEven_iff hd hm hpos]
  rw [le_halfEven_iff (Nat.lt_of_lt_of_le hd hle) hm hpos] at h
  exact (Nat.mul_le_mul_left _ hle).trans h

/-! ### Rational numbers -/

/-- The integer nearest to a number, of two the even one. -/
def toEven (q : ℚ) : ℤ :=
  if Int.fract q < 1 / 2 then ⌊q⌋ else if 1 / 2 < Int.fract q then ⌊q⌋ + 1 else ⌊q⌋ + ⌊q⌋ % 2

theorem toEven_div (n : Nat) {d : Nat} (hd : 0 < d) : toEven (n / d) = halfEven n d := by
  have hd' : (0 : ℚ) < d := Nat.cast_pos.2 hd
  have hfloor : ⌊(n : ℚ) / d⌋ = ((n / d : Nat) : ℤ) := by
    rw [Rat.floor_natCast_div_natCast, Int.natCast_div]
  have hfract : Int.fract ((n : ℚ) / d) = (n % d : Nat) / d :=
    Int.fract_div_natCast_eq_div_natCast_mod
  have hbelow : ((n % d : Nat) / d : ℚ) < 1 / 2 ↔ 2 * (n % d) < d := by
    rw [div_lt_div_iff₀ hd' two_pos, one_mul, mul_comm]
    exact_mod_cast Iff.rfl
  have habove : (1 / 2 : ℚ) < (n % d : Nat) / d ↔ d < 2 * (n % d) := by
    rw [div_lt_div_iff₀ two_pos hd', one_mul, mul_comm]
    exact_mod_cast Iff.rfl
  unfold toEven halfEven
  simp only [hfract, hfloor, hbelow, habove]
  split_ifs <;> push_cast <;> rfl

@[simp] theorem toEven_natCast (n : Nat) : toEven n = n := by
  have h := toEven_div n Nat.one_pos
  rwa [Nat.cast_one, div_one, halfEven_one] at h

theorem toEven_le_add_half (q : ℚ) : (toEven q : ℚ) ≤ q + 1 / 2 := by
  have hq := Int.floor_add_fract q
  unfold toEven
  split_ifs with hbelow habove
  · have := Int.fract_nonneg q
    linarith
  · push_cast
    linarith
  · have hhalf : Int.fract q = 1 / 2 := le_antisymm (not_lt.1 habove) (not_lt.1 hbelow)
    have hmod : ((⌊q⌋ % 2 : ℤ) : ℚ) ≤ 1 := by
      exact_mod_cast (by omega : ⌊q⌋ % 2 ≤ 1)
    push_cast
    linarith

/-- Rounding does not pass an integer. -/
theorem toEven_le {q : ℚ} {m : ℤ} (h : q ≤ m) : toEven q ≤ m := by
  have hhalf := toEven_le_add_half q
  refine Int.lt_add_one_iff.1 ?_
  exact_mod_cast (by push_cast; linarith : (toEven q : ℚ) < (m + 1 : ℤ))

end Rounding

end MarketFeed
