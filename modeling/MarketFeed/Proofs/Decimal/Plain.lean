import MarketFeed.Proofs.Decimal.Canonical
import MarketFeed.Proofs.Decimal.Exactness

/-!
# Decimals in plain notation

Digits with a point among them are read, however many they are, if a decimal can be worth what they
spell, and the decimal is worth that (`Decimal.plain_of_fits`).
-/

namespace MarketFeed

namespace Decimal

/-! ### What digits spell -/

theorem digitsIn_chars (ds : List Digit) (cs : List Char) :
    digitsIn (Digits.chars ds ++ cs) = ds ++ digitsIn cs := by
  induction ds with
  | nil => rfl
  | cons d ds ih =>
    rw [Digits.chars, List.map_cons, List.cons_append, digitsIn_digit (Digit.ofChar?_toChar d),
      ← Digits.chars, ih, List.cons_append]

theorem placesIn_chars (ds : List Digit) (cs : List Char) :
    placesIn (Digits.chars ds ++ cs) = placesIn cs := by
  induction ds with
  | nil => rfl
  | cons d ds ih =>
    rw [Digits.chars, List.map_cons, List.cons_append,
      placesIn_other (ne_point_of_digit (Digit.ofChar?_toChar d)), ← Digits.chars, ih]

/-- Digits with a point among them spell those digits, divided by a power of ten. -/
theorem spelledMagnitude_spell (whole places : List Digit) :
    spelledMagnitude (spell false whole places) =
      Digits.value (whole ++ places) / 10 ^ places.length := by
  rw [spelledMagnitude, spell, if_neg Bool.false_ne_true, List.nil_append, digitsIn_chars,
    placesIn_chars]
  by_cases hplaces : places = []
  · subst hplaces
    rfl
  · have hdigits : digitsIn (Digits.chars places) = places := by
      have h := digitsIn_chars places []
      rwa [List.append_nil, show digitsIn [] = [] from rfl, List.append_nil] at h
    rw [if_neg hplaces, digitsIn_other (by decide), placesIn_point, hdigits]

/-! ### Digits that fit -/

/-- Digits that fit are read as they are spelled. -/
theorem plain_of_spell (negative : Bool) {whole places : List Digit} (hwhole : whole ≠ [])
    (hplaces : places.length ≤ maxScale)
    (hpos : 0 < Digits.value (whole ++ places))
    (hvalue : Digits.value (whole ++ places) < mantissaBound) :
    ∃ d, plain (spell negative whole places) = .ok d ∧ d.negative = negative ∧
      d.mantissa = Digits.value (whole ++ places) ∧ d.scale = places.length := by
  obtain ⟨d, hrun, h⟩ := run_spell negative hwhole hplaces hvalue fun _ => hpos.ne'
  exact ⟨d, by rw [plain_spell negative hwhole, hrun], h⟩

/-! ### Digits that may not fit -/

theorem dropped_chars (ds : List Digit) : dropped (Digits.chars ds) = .ok () := by
  induction ds with
  | nil => rfl
  | cons d ds ih =>
    rw [Digits.chars, List.map_cons, dropped, if_pos, ← Digits.chars, ih]
    rw [Digit.ofChar?_toChar]
    exact .inr rfl

/-- Where no further place can be taken, the digits of a number that fits are zeros. -/
theorem exists_roundOn {d : Decimal} {digit : Digit} {ds : List Digit}
    (hfull : IsFull d.mantissa d.scale (digit :: ds))
    (hfits : Fits (Digits.valueFrom d.mantissa (digit :: ds) / 10 ^ (d.scale + (ds.length + 1)))) :
    ∃ d', roundOn d digit (Digits.chars ds) = .ok d' := by
  have hvalue : Digits.value (digit :: ds) = 0 := by
    by_contra hne
    exact not_fits_of_isFull hfull hne hfits
  rw [roundOn, if_pos (by rw [value_cons_eq_zero hvalue]; decide), dropped_chars]
  exact ⟨_, rfl⟩

theorem roundNext_digit (d : Decimal) (long : Bool) (digit : Digit) (cs : List Char) :
    roundNext d long (digit.toChar :: cs) = roundOn d digit cs := by
  have hdigit : (digit.toChar == '_') = false := by decide +revert
  cases long with
  | false => simp [roundNext]
  | true => simp [roundNext, hdigit]

/-- Places are read as far as they fit, and those behind them are zeros. -/
theorem exists_run_places {s : Scan} {ds : List Digit} (hpoint : s.pointSeen = true)
    (hseen : s.digitSeen = true)
    (hfits : Fits (Digits.valueFrom s.value.mantissa ds / 10 ^ (s.value.scale + ds.length))) :
    ∃ d, s.run (Digits.chars ds) = .ok d := by
  induction ds generalizing s with
  | nil => exact ⟨_, if_pos hseen⟩
  | cons digit ds ih =>
    rw [Digits.chars, List.map_cons, Scan.run, ← Digits.chars]
    by_cases hfull : s.full = true
    · have hscale := eq_of_beq (Bool.and_eq_true_iff.1 hfull).2
      rw [if_pos hfull, roundNext_digit]
      exact exists_roundOn (.inl hscale) hfits
    · rw [if_neg hfull, Digit.ofChar?_toChar]
      dsimp only
      cases hpush : s.value.push? digit s.pointSeen with
      | some value =>
        obtain ⟨_, hmantissa, hscale⟩ := parts_of_ofParts? hpush
        rw [if_pos hpoint] at hscale
        refine ih (s := s.push value) hpoint rfl ?_
        show Fits (Digits.valueFrom value.mantissa ds / 10 ^ (value.scale + ds.length))
        rw [hmantissa, hscale, ← Digits.valueFrom_cons, Nat.add_assoc, Nat.add_comm 1]
        exact hfits
      | none =>
        dsimp only
        rw [if_pos hpoint]
        have hoverflow := overflow_of_push? (Bool.eq_false_iff.2 hfull) hpush
        exact exists_roundOn (.inr ⟨digit, ds, rfl, hoverflow⟩) hfits

theorem Fits.lt {x : ℚ} (h : Fits x) : x < mantissaBound := by
  obtain ⟨m, k, hm, hk, rfl⟩ := h
  exact (isReading_plainZero ⟨false, m, k, hm, hk⟩).lt

/-- Digits with a point among them are read as what they spell if that fits. -/
theorem plain_of_fits (negative : Bool) {whole places : List Digit} (hwhole : whole ≠ [])
    (hfits : Fits (Digits.value (whole ++ places) / 10 ^ places.length)) :
    ∃ d, plain (spell negative whole places) = .ok d ∧
      d.worth = signFactor negative * (Digits.value (whole ++ places) / 10 ^ places.length) := by
  have hvalue : Digits.value whole < mantissaBound := by
    have hle : Digits.value whole * 10 ^ places.length ≤ Digits.value (whole ++ places) := by
      rw [Digits.value_append, Digits.valueFrom_eq]
      exact Nat.le_add_right _ _
    have hlt := hfits.lt
    rw [div_lt_iff₀ (by positivity)] at hlt
    have hlt : Digits.value (whole ++ places) < mantissaBound * 10 ^ places.length := by
      exact_mod_cast hlt
    exact lt_of_mul_lt_mul_right (lt_of_le_of_lt hle hlt) (Nat.zero_le _)
  obtain ⟨d, hrun⟩ : ∃ d, (Scan.begin negative).run (spell false whole places) = .ok d := by
    obtain ⟨s₁, h₁, hseen₁, hrun₁⟩ := run_digits (has_begin negative) hvalue nofun
      (if places = [] then [] else '.' :: Digits.chars places)
    have h₁ : s₁.Has negative (Digits.value whole) 0 false := h₁
    have hrun : (Scan.begin negative).run (spell false whole places) =
        s₁.run (if places = [] then [] else '.' :: Digits.chars places) := hrun₁
    have hseen := hseen₁ (.inr hwhole)
    rw [hrun]
    by_cases hplaces : places = []
    · rw [if_pos hplaces]
      exact ⟨_, if_pos hseen⟩
    · obtain ⟨s₂, h₂, hseen₂, hrun₂⟩ := run_point h₁ (Digits.chars places)
      rw [if_neg hplaces, hrun₂]
      refine exists_run_places h₂.pointSeen (hseen₂.trans hseen) ?_
      rwa [h₂.mantissa, h₂.scale, Nat.zero_add, ← Digits.value_append]
  refine ⟨d, by rw [plain_spell negative hwhole, hrun], ?_⟩
  obtain ⟨hreading, _⟩ := isReading_of_begin hrun
  rw [spelledMagnitude_spell] at hreading
  rw [hreading.worth, hreading.exact hfits]

theorem read_of_fits (negative : Bool) {whole places : List Digit} (hwhole : whole ≠ [])
    (hfits : Fits (Digits.value (whole ++ places) / 10 ^ places.length)) :
    ∃ d, read (String.ofList (spell negative whole places)) = .ok d ∧
      d.worth = signFactor negative * (Digits.value (whole ++ places) / 10 ^ places.length) := by
  obtain ⟨d, hd, hworth⟩ := plain_of_fits negative hwhole hfits
  exact ⟨d, by rw [read, readChars, String.toList_ofList, hd], hworth⟩

/-- Such a text is not blank. -/
theorem trim_spell_ne_nil (negative : Bool) {whole : List Digit} (hwhole : whole ≠ [])
    (places : List Digit) : Text.trim (spell negative whole places) ≠ [] := by
  obtain ⟨d, ds, rfl⟩ := List.exists_cons_of_ne_nil hwhole
  cases negative with
  | true => exact Text.trim_ne_nil (by decide) _
  | false => exact Text.trim_ne_nil (Text.isBlank_toChar d) _

end Decimal

end MarketFeed
