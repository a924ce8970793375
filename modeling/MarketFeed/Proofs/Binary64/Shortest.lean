import MarketFeed.Binary64.Shortest
import MarketFeed.Proofs.Binary64.Nearest
import MarketFeed.Proofs.Text.Digits

/-!
# The shortest decimal

The shortest decimal of a number lies between the midpoints to its neighbours, and no coarser grid
has a point there (`Binary64.isShortest`).  A decimal of up to fifteen digits is the shortest one of
the number that covers it (`Binary64.worth_shortest`).
-/

namespace MarketFeed

namespace Binary64

/-- The number that a grid point stands for. -/
def Point.worth (p : Point) : ℚ := p.digits * 10 ^ p.tens

/-- A grid point lies between the midpoints, it has up to eighteen digits, and no coarser grid has a
point there. -/
structure IsShortest (x : Binary64) (p : Point) : Prop where
  covers : x.Covers p.worth
  pos : 0 < p.digits
  lt : p.digits < 10 ^ 18
  coarsest : ∀ tens, p.tens < tens → ∀ n : Nat, ¬x.Covers (n * 10 ^ tens)

/-! ### The numbers that are covered -/

variable {x : Binary64}

theorem covers_of_between {q : ℚ} (hlow : x.low < q) (hhigh : q < x.high) : x.Covers q := by
  unfold Covers
  split
  · exact ⟨hlow.le, hhigh.le⟩
  · exact ⟨hlow, hhigh⟩

theorem Covers.low_le {q : ℚ} (h : x.Covers q) : x.low ≤ q := by
  unfold Covers at h
  split at h
  · exact h.1
  · exact h.1.le

theorem Covers.le_high {q : ℚ} (h : x.Covers q) : q ≤ x.high := by
  unfold Covers at h
  split at h
  · exact h.2
  · exact h.2.le

theorem Covers.between {a b c : ℚ} (ha : x.Covers a) (hb : x.Covers b) (hac : a ≤ c) (hcb : c ≤ b) :
    x.Covers c := by
  unfold Covers at *
  split at ha
  · next heven =>
    rw [if_pos heven] at hb ⊢
    exact ⟨ha.1.trans hac, hcb.trans hb.2⟩
  · next hodd =>
    rw [if_neg hodd] at hb ⊢
    exact ⟨lt_of_lt_of_le ha.1 hac, lt_of_le_of_lt hcb hb.2⟩

theorem slack_bounds (x : Binary64) : 1 / 4 ≤ x.slack ∧ x.slack ≤ 1 / 2 := by
  unfold slack
  split <;> norm_num

theorem low_lt_size (x : Binary64) : x.low < x.size := by
  have htwo : (0 : ℚ) < 2 ^ x.exponent := by positivity
  have := (slack_bounds x).1
  exact mul_lt_mul_of_pos_right (by linarith) htwo

theorem size_lt_high (x : Binary64) : x.size < x.high := by
  have htwo : (0 : ℚ) < 2 ^ x.exponent := by positivity
  exact mul_lt_mul_of_pos_right (by linarith) htwo

theorem covers_size (x : Binary64) : x.Covers x.size :=
  covers_of_between x.low_lt_size x.size_lt_high

theorem high_sub_low (x : Binary64) : x.high - x.low = (1 / 2 + x.slack) * 2 ^ x.exponent := by
  unfold high low
  ring

theorem low_pos (h : 0 < x.significand) : 0 < x.low := by
  have htwo : (0 : ℚ) < 2 ^ x.exponent := by positivity
  have hm : (1 : ℚ) ≤ x.significand := by exact_mod_cast h
  have := (slack_bounds x).2
  exact mul_pos (by linarith) htwo

/-! ### Grids -/

theorem unit_pos (x : Binary64) : 0 < x.span.unit := Nat.pow_pos two_pos

/-- The midpoints and the number itself as multiples of the unit of the span. -/
theorem span_eq (h : 0 < x.significand) :
    (x.span.low : ℚ) = x.low * x.span.unit ∧ (x.span.value : ℚ) = x.size * x.span.unit ∧
      (x.span.high : ℚ) = x.high * x.span.unit := by
  have hexp : (2 : ℚ) ^ x.exponent * ((2 ^ (-(x.exponent - 2)).toNat : Nat) : ℚ) =
      4 * 2 ^ (x.exponent - 2).toNat := by
    have h4 : (2 : ℚ) ^ x.exponent = 4 * 2 ^ (x.exponent - 2) := by
      rw [zpow_sub₀ two_ne_zero]
      norm_num
      ring
    rw [h4, zpow_eq_div two_ne_zero]
    push_cast
    field_simp
  have hgap : ((4 * x.significand -
      (if x.significand = 2 ^ 52 ∧ minExponent < x.exponent then 1 else 2) : Nat) : ℚ) =
        4 * (x.significand - x.slack) := by
    unfold slack
    split
    · rw [Nat.cast_sub (by omega)]
      push_cast
      ring
    · rw [Nat.cast_sub (by omega)]
      push_cast
      ring
  unfold span low high size
  simp only [Nat.pow_eq]
  refine ⟨?_, ?_, ?_⟩
  · rw [Nat.cast_mul, hgap, mul_assoc _ ((2 : ℚ) ^ x.exponent), hexp]
    push_cast
    ring
  · rw [mul_assoc _ ((2 : ℚ) ^ x.exponent), hexp]
    push_cast
    ring
  · rw [mul_assoc _ ((2 : ℚ) ^ x.exponent), hexp]
    push_cast
    ring

/-- The number of steps of a grid up to the number. -/
def stepsBelow (x : Binary64) (tens : ℤ) : Nat :=
  x.span.value * Nat.pow 10 (-tens).toNat / (x.span.unit * Nat.pow 10 tens.toNat)

/-- A multiple of the unit and the steps of a grid compare as what they stand for. -/
theorem le_steps_iff {s : Nat} {q : ℚ} (hs : (s : ℚ) = q * x.span.unit) (tens : ℤ) (n : Nat) :
    (s * Nat.pow 10 (-tens).toNat ≤ n * (x.span.unit * Nat.pow 10 tens.toNat) ↔
        q ≤ n * 10 ^ tens) ∧
      (n * (x.span.unit * Nat.pow 10 tens.toNat) ≤ s * Nat.pow 10 (-tens).toNat ↔
        n * 10 ^ tens ≤ q) := by
  have hunit : (0 : ℚ) < x.span.unit := by exact_mod_cast x.unit_pos
  have hdown : (0 : ℚ) < 10 ^ (-tens).toNat := by positivity
  have hgrid : (n : ℚ) * (x.span.unit * 10 ^ tens.toNat) =
      n * 10 ^ tens * (x.span.unit * 10 ^ (-tens).toNat) := by
    rw [zpow_eq_div (by norm_num : (10 : ℚ) ≠ 0) tens]
    field_simp
  have hvalue : (s : ℚ) * 10 ^ (-tens).toNat = q * (x.span.unit * 10 ^ (-tens).toNat) := by
    rw [hs, mul_assoc]
  rw [Nat.pow_eq, Nat.pow_eq, ← @Nat.cast_le ℚ, ← @Nat.cast_le ℚ]
  push_cast
  rw [hgrid, hvalue, mul_le_mul_iff_left₀ (by positivity), mul_le_mul_iff_left₀ (by positivity)]
  exact ⟨Iff.rfl, Iff.rfl⟩

theorem holds_iff (h : 0 < x.significand) (tens : ℤ) (n : Nat) :
    x.span.holds (x.span.low * Nat.pow 10 (-tens).toNat) (x.span.high * Nat.pow 10 (-tens).toNat)
        (n * (x.span.unit * Nat.pow 10 tens.toNat)) = true ↔
      x.Covers (n * 10 ^ tens) := by
  obtain ⟨hlow, _, hhigh⟩ := span_eq h
  have hclosed : x.span.closed = true ↔ x.significand % 2 = 0 := beq_iff_eq
  unfold Span.holds Covers
  by_cases heven : x.significand % 2 = 0
  · rw [if_pos (hclosed.2 heven), if_pos heven, Bool.and_eq_true, decide_eq_true_iff,
      decide_eq_true_iff, (le_steps_iff hlow tens n).1, (le_steps_iff hhigh tens n).2]
  · rw [if_neg fun hc => heven (hclosed.1 hc), if_neg heven, Bool.and_eq_true, decide_eq_true_iff,
      decide_eq_true_iff, ← not_le, ← not_le, (le_steps_iff hlow tens n).2,
      (le_steps_iff hhigh tens n).1, not_le, not_le]

theorem stepsBelow_bounds (h : 0 < x.significand) (tens : ℤ) :
    x.stepsBelow tens * 10 ^ tens ≤ x.size ∧
      x.size < (x.stepsBelow tens + 1 : Nat) * 10 ^ tens := by
  obtain ⟨_, hvalue, _⟩ := span_eq h
  have hpos : 0 < x.span.unit * Nat.pow 10 tens.toNat :=
    Nat.mul_pos x.unit_pos (Nat.pow_pos (by decide))
  rw [← (le_steps_iff hvalue tens _).2, ← not_le, ← (le_steps_iff hvalue tens _).2, not_le]
  refine ⟨Nat.div_mul_le_self _ _, ?_⟩
  rw [mul_comm (x.stepsBelow tens + 1)]
  exact Nat.lt_mul_div_succ _ hpos

/-! ### Hits -/

theorem halfEven_near (n d : Nat) :
    Rounding.halfEven n d = n / d ∨ Rounding.halfEven n d = n / d + 1 := by
  unfold Rounding.halfEven
  dsimp only
  rcases Nat.mod_two_eq_zero_or_one (n / d) with heven | hodd <;> grind

/-- A grid is hit if a point next to the number is covered, and then at such a point. -/
theorem hit?_cases (h : 0 < x.significand) (tens : ℤ) :
    (∃ n : Nat, x.span.hit? tens = some ⟨n, tens⟩ ∧ x.Covers (n * 10 ^ tens)) ∨
      x.span.hit? tens = none ∧ ¬x.Covers (x.stepsBelow tens * 10 ^ tens) ∧
        ¬x.Covers ((x.stepsBelow tens + 1 : Nat) * 10 ^ tens) := by
  have hbelow := holds_iff h tens (x.stepsBelow tens)
  have habove := holds_iff h tens (x.stepsBelow tens + 1)
  have hnear := halfEven_near (x.span.value * Nat.pow 10 (-tens).toNat)
    (x.span.unit * Nat.pow 10 tens.toNat)
  rw [← stepsBelow] at hnear
  unfold Span.hit?
  dsimp only
  rw [← stepsBelow]
  split
  · next hboth =>
    obtain ⟨hb, ha⟩ := Bool.and_eq_true_iff.1 hboth
    refine .inl ⟨_, rfl, ?_⟩
    rcases hnear with hq | hq
    · rw [hq]
      exact hbelow.1 hb
    · rw [hq]
      exact habove.1 ha
  · split
    · next hb => exact .inl ⟨_, rfl, hbelow.1 hb⟩
    · next hb =>
      split
      · next ha => exact .inl ⟨_, rfl, habove.1 ha⟩
      · next ha => exact .inr ⟨rfl, fun hc => hb (hbelow.2 hc), fun hc => ha (habove.2 hc)⟩

/-- A grid with a point that is covered is hit: one next to the number is covered as well. -/
theorem hit?_ne_none (h : 0 < x.significand) {tens : ℤ} {n : Nat}
    (hn : x.Covers (n * 10 ^ tens)) : x.span.hit? tens ≠ none := by
  rcases hit?_cases h tens with ⟨m, hm, _⟩ | ⟨_, hbelow, habove⟩
  · rw [hm]
    exact Option.some_ne_none _
  · have hten : (0 : ℚ) < 10 ^ tens := by positivity
    obtain ⟨hle, hlt⟩ := stepsBelow_bounds h tens
    rcases Nat.lt_or_ge (x.stepsBelow tens) n with hgt | hge
    · have hcast : ((x.stepsBelow tens + 1 : Nat) : ℚ) ≤ n := by exact_mod_cast hgt
      exact absurd (x.covers_size.between hn hlt.le (by gcongr)) habove
    · have hcast : (n : ℚ) ≤ x.stepsBelow tens := by exact_mod_cast hge
      exact absurd (hn.between x.covers_size (by gcongr) hle) hbelow

/-- A grid finer than what is covered has a point there. -/
theorem exists_covers (h : 0 < x.significand) {tens : ℤ} (hfine : 10 ^ tens < x.high - x.low) :
    ∃ n : Nat, x.Covers (n * 10 ^ tens) := by
  obtain ⟨hle, hlt⟩ := stepsBelow_bounds h tens
  by_cases hbelow : x.low < x.stepsBelow tens * 10 ^ tens
  · exact ⟨_, covers_of_between hbelow (lt_of_le_of_lt hle x.size_lt_high)⟩
  · refine ⟨_, covers_of_between (x.low_lt_size.trans hlt) ?_⟩
    push_cast
    linarith

/-! ### The search -/

/-- A search ends at the first grid that is hit. -/
theorem search_eq_some {s : Span} {bound : Nat} {tens : ℤ} {p : Point}
    (h : s.search bound tens = some p) :
    ∃ tens', s.hit? tens' = some p ∧ tens' ≤ tens ∧
      ∀ tens'', tens' < tens'' → tens'' ≤ tens → s.hit? tens'' = none := by
  induction bound generalizing tens with
  | zero => cases h
  | succ bound ih =>
    rw [Span.search] at h
    cases hhit : s.hit? tens with
    | some p' =>
      rw [hhit] at h
      obtain rfl := Option.some.inj h
      exact ⟨tens, hhit, le_rfl, fun _ hlt hle => absurd hlt (not_lt.2 hle)⟩
    | none =>
      rw [hhit] at h
      obtain ⟨tens', hhit', hle, hnone⟩ := ih h
      refine ⟨tens', hhit', by omega, fun tens'' hlt hle' => ?_⟩
      rcases eq_or_lt_of_le hle' with rfl | hlt'
      · exact hhit
      · exact hnone tens'' hlt (by omega)

/-- A search finds something if it reaches a grid that is hit. -/
theorem search_ne_none {s : Span} {bound : Nat} {tens tens' : ℤ} (hhit : s.hit? tens' ≠ none)
    (hle : tens' ≤ tens) (hbound : tens - bound < tens') : s.search bound tens ≠ none := by
  induction bound generalizing tens with
  | zero => omega
  | succ bound ih =>
    rw [Span.search]
    cases hfirst : s.hit? tens with
    | some p => exact Option.some_ne_none p
    | none =>
      refine ih ?_ (by omega)
      have hne : tens' ≠ tens := by
        rintro rfl
        exact hhit hfirst
      omega

/-- The grid at which the search for the shortest decimal starts: one step is beyond the number. -/
def startGrid (x : Binary64) : Nat := (Digits.ofNat (x.span.value / x.span.unit)).length

theorem size_lt_startGrid (h : 0 < x.significand) : x.size < 10 ^ (x.startGrid : ℤ) := by
  have hunit : (0 : ℚ) < x.span.unit := by exact_mod_cast x.unit_pos
  have hlt := Digits.lt_pow_length_ofNat (x.span.value / x.span.unit)
  rw [Nat.div_lt_iff_lt_mul x.unit_pos] at hlt
  have hcast : (x.span.value : ℚ) < 10 ^ x.startGrid * x.span.unit := by exact_mod_cast hlt
  rw [(span_eq h).2.1] at hcast
  rw [zpow_natCast]
  exact lt_of_mul_lt_mul_right hcast hunit.le

theorem high_le_two_mul_size (h : 0 < x.significand) : x.high ≤ 2 * x.size := by
  have htwo : (0 : ℚ) < 2 ^ x.exponent := by positivity
  have hm : (1 : ℚ) ≤ x.significand := by exact_mod_cast h
  unfold high size
  rw [← mul_assoc]
  exact mul_le_mul_of_nonneg_right (by linarith) htwo.le

theorem digits_pos (h : 0 < x.significand) {n : Nat} {tens : ℤ} (hn : x.Covers (n * 10 ^ tens)) :
    0 < n := by
  rw [Nat.pos_iff_ne_zero]
  rintro rfl
  have hle := hn.low_le
  rw [Nat.cast_zero, zero_mul] at hle
  exact absurd (low_pos h) (not_lt.2 hle)

/-- A grid with a step beyond the number has no point that is covered. -/
theorem not_covers_of_startGrid (h : 0 < x.significand) {tens : ℤ} (ht : x.startGrid < tens)
    (n : Nat) : ¬x.Covers (n * 10 ^ tens) := by
  intro hn
  have hone : (1 : ℚ) ≤ n := by exact_mod_cast digits_pos h hn
  have hstart := size_lt_startGrid h
  have hten : (10 : ℚ) * 10 ^ (x.startGrid : ℤ) ≤ 10 ^ tens := by
    rw [← zpow_one_add₀ (by norm_num)]
    exact zpow_le_zpow_right₀ (by norm_num) (by omega)
  have hpoint : (10 : ℚ) ^ tens ≤ n * 10 ^ tens := le_mul_of_one_le_left (by positivity) hone
  have := high_le_two_mul_size h
  have := hn.le_high
  have : (0 : ℚ) < 10 ^ (x.startGrid : ℤ) := by positivity
  linarith

/-- The finest grid of the search is finer than what any number covers. -/
theorem finest_lt (hx : x.IsNormal) : (10 : ℚ) ^ (-399 : ℤ) < x.high - x.low := by
  have hpow : (2 : ℚ) ^ 1080 ≤ 10 ^ 378 := by
    calc (2 : ℚ) ^ 1080 = (2 ^ 20) ^ 54 := by rw [← pow_mul]
      _ ≤ (10 ^ 7) ^ 54 := pow_le_pow_left₀ (by positivity) (by norm_num) 54
      _ = 10 ^ 378 := by rw [← pow_mul]
  have hten : (10 : ℚ) ^ (-399 : ℤ) < 10 ^ (-378 : ℤ) :=
    zpow_lt_zpow_right₀ (by norm_num) (by norm_num)
  have htwo : (10 : ℚ) ^ (-378 : ℤ) ≤ 2 ^ (-1080 : ℤ) := by
    rw [zpow_neg, zpow_neg]
    exact inv_anti₀ (by positivity) (by exact_mod_cast hpow)
  have hexp : (2 : ℚ) ^ (-1080 : ℤ) ≤ 2 ^ (x.exponent - 1) := by
    have hleast : -1074 ≤ x.exponent := hx.least
    exact zpow_le_zpow_right₀ one_le_two (by omega)
  have hhalf : (2 : ℚ) ^ (x.exponent - 1) = 1 / 2 * 2 ^ x.exponent := by
    rw [zpow_sub_one₀ two_ne_zero]
    ring
  have hwidth : 1 / 2 * (2 : ℚ) ^ x.exponent ≤ x.high - x.low := by
    have := (slack_bounds x).1
    rw [high_sub_low]
    gcongr
    linarith
  linarith

/-- A point that is covered has few digits where the next coarser grid has none. -/
theorem digits_lt (hx : x.IsNormal) (h : 0 < x.significand) {n : Nat} {tens : ℤ}
    (hn : x.Covers (n * 10 ^ tens)) (hnone : ∀ m : Nat, ¬x.Covers (m * 10 ^ (tens + 1))) :
    n < 10 ^ 18 := by
  have hten : (0 : ℚ) < 10 ^ tens := by positivity
  have htwo : (0 : ℚ) < 2 ^ x.exponent := by positivity
  have hwidth : x.high - x.low ≤ 10 * 10 ^ tens := by
    rw [← zpow_one_add₀ (by norm_num), add_comm]
    by_contra hfine
    obtain ⟨m, hm⟩ := exists_covers h (not_le.1 hfine)
    exact hnone m hm
  have hpart : 3 / 4 * (2 : ℚ) ^ x.exponent ≤ x.high - x.low := by
    have := (slack_bounds x).1
    rw [high_sub_low]
    gcongr
    linarith
  have hhigh : x.high ≤ 2 ^ 53 * 2 ^ x.exponent := by
    have hm : (x.significand + 1 : ℚ) ≤ 2 ^ 53 := by exact_mod_cast hx.lt
    unfold high
    gcongr
    linarith
  have hlt : (n : ℚ) * 10 ^ tens < 10 ^ 18 * 10 ^ tens := by
    have := hn.le_high
    linarith
  exact_mod_cast lt_of_mul_lt_mul_right hlt hten.le

/-- The shortest decimal of a number that is not zero. -/
theorem isShortest (hx : x.IsNormal) (h : 0 < x.significand) : x.IsShortest x.shortest := by
  obtain ⟨n, hn⟩ := exists_covers h (finest_lt hx)
  have hfound : x.span.search (x.startGrid + 400) x.startGrid ≠ none :=
    search_ne_none (hit?_ne_none h hn) (by omega) (by omega)
  obtain ⟨p, hp⟩ := Option.ne_none_iff_exists'.1 hfound
  have hshortest : x.shortest = p := by
    rw [shortest, ← startGrid, hp]
    rfl
  rw [hshortest]
  obtain ⟨tens, hhit, _, hnone⟩ := search_eq_some hp
  rcases hit?_cases h tens with ⟨m, hm, hcovers⟩ | ⟨hno, _⟩
  · obtain rfl := Option.some.inj (hhit.symm.trans hm)
    have hcoarsest : ∀ tens', tens < tens' → ∀ n : Nat, ¬x.Covers (n * 10 ^ tens') := by
      intro tens' hlt n hn
      rcases le_or_gt tens' x.startGrid with hle | hgt
      · exact hit?_ne_none h hn (hnone tens' hlt hle)
      · exact not_covers_of_startGrid h hgt n hn
    exact ⟨hcovers, digits_pos h hcovers, digits_lt hx h hcovers (hcoarsest _ (lt_add_one tens)),
      hcoarsest⟩
  · rw [hno] at hhit
    cases hhit

/-- A number that covers more than the least significands do gives no place away. -/
theorem full_of_covers (hx : x.IsNormal) {q : ℚ} (h : x.Covers q)
    (hq : 2 ^ 53 * 2 ^ minExponent < q) : 2 ^ 52 ≤ x.significand := by
  refine hx.full (lt_of_le_of_ne hx.least fun he => ?_)
  have hm : (x.significand + 1 : ℚ) ≤ 2 ^ 53 := by exact_mod_cast hx.lt
  have hhigh : x.high ≤ 2 ^ 53 * 2 ^ minExponent := by
    unfold high
    rw [← he]
    gcongr
    linarith
  have := h.le_high
  linarith

/-- A number that covers a decimal of up to fifteen digits covers less than a step of its grid. -/
theorem high_sub_low_lt (hfull : 2 ^ 52 ≤ x.significand) {n : Nat} {tens : ℤ} (hlt : n < 10 ^ 15)
    (hn : x.Covers (n * 10 ^ tens)) : x.high - x.low < 10 ^ tens := by
  have hten : (0 : ℚ) < 10 ^ tens := by positivity
  have htwo : (0 : ℚ) < 2 ^ x.exponent := by positivity
  have hm : (2 : ℚ) ^ 52 ≤ x.significand := by exact_mod_cast hfull
  have hn' : (n : ℚ) < 10 ^ 15 := by exact_mod_cast hlt
  have hslack := (slack_bounds x).2
  have hwidth : x.high - x.low ≤ 2 ^ x.exponent := by
    rw [high_sub_low]
    exact mul_le_of_le_one_left htwo.le (by linarith)
  have hlow : 10 ^ 15 * (2 : ℚ) ^ x.exponent ≤ x.low := by
    unfold low
    gcongr
    linarith
  have hlarge : 10 ^ 15 * (2 : ℚ) ^ x.exponent < 10 ^ 15 * 10 ^ tens := by
    calc 10 ^ 15 * (2 : ℚ) ^ x.exponent ≤ n * 10 ^ tens := hlow.trans hn.low_le
      _ < 10 ^ 15 * 10 ^ tens := by gcongr
  linarith

/-- A grid with a step wider than what a number covers has at most one point there. -/
theorem covers_unique {tens : ℤ} (hstep : x.high - x.low < 10 ^ tens) {a b : Nat}
    (ha : x.Covers (a * 10 ^ tens)) (hb : x.Covers (b * 10 ^ tens)) : a = b := by
  have hten : (0 : ℚ) < 10 ^ tens := by positivity
  have hclose {a b : Nat} (ha : x.Covers (a * 10 ^ tens)) (hb : x.Covers (b * 10 ^ tens)) :
      a < b + 1 := by
    have hlt : (a : ℚ) * 10 ^ tens < ((b + 1 : Nat) : ℚ) * 10 ^ tens := by
      have := ha.le_high
      have := hb.low_le
      push_cast
      linarith
    exact_mod_cast lt_of_mul_lt_mul_right hlt hten.le
  exact le_antisymm (Nat.le_of_lt_succ (hclose ha hb)) (Nat.le_of_lt_succ (hclose hb ha))

/-- A decimal of up to fifteen digits is the shortest one of the number that covers it. -/
theorem worth_shortest (hx : x.IsNormal) (hfull : 2 ^ 52 ≤ x.significand) {n : Nat} {tens : ℤ}
    (hlt : n < 10 ^ 15) (hn : x.Covers (n * 10 ^ tens)) : x.shortest.worth = n * 10 ^ tens := by
  have hpos : 0 < x.significand := lt_of_lt_of_le (by norm_num) hfull
  obtain ⟨hcovers, _, _, hcoarsest⟩ := isShortest hx hpos
  generalize x.shortest = p at hcovers hcoarsest ⊢
  -- The shortest decimal is on this grid too, so it is the same point.
  have hle : tens ≤ p.tens := by
    by_contra hgt
    exact hcoarsest tens (by omega) n hn
  obtain ⟨j, hj⟩ := Int.exists_add_of_le hle
  have hworth : p.worth = ((p.digits * 10 ^ j : Nat) : ℚ) * 10 ^ tens := by
    rw [Point.worth, hj, zpow_add₀ (by norm_num), zpow_natCast]
    push_cast
    ring
  rw [hworth] at hcovers ⊢
  rw [covers_unique (high_sub_low_lt hfull hlt hn) hcovers hn]

end Binary64

end MarketFeed
