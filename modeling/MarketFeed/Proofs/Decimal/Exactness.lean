import Mathlib.Data.List.TakeWhile
import MarketFeed.Proofs.Decimal.Worth

/-!
# Decimals as they are spelled

A text spells a number (`Decimal.spelled`): its digits with the point in its place, times the power
of ten behind an exponent mark.  The text is read without loss exactly if there are decimals worth
as much as its base and as the whole of it (`Decimal.worth_eq_spelled_iff`); otherwise places are
rounded away.
-/

namespace MarketFeed

namespace Decimal

/-- The digits among characters. -/
def digitsIn (cs : List Char) : List Digit := cs.filterMap Digit.ofChar?

/-- The number of digits behind the point. -/
def placesIn (cs : List Char) : Nat := (digitsIn (cs.dropWhile (· != '.'))).length

/-- The number that digits and a point spell, but for the sign. -/
def spelledMagnitude (cs : List Char) : ℚ := Digits.value (digitsIn cs) / 10 ^ placesIn cs

/-- The number that a sign, digits and a point spell. -/
def spelledBase (cs : List Char) : ℚ := signFactor (cs.head? == some '-') * spelledMagnitude cs

/-- The power of ten that a sign and digits spell. -/
def spelledTens (cs : List Char) : ℤ :=
  if cs.head? = some '-' then -(Digits.value (digitsIn cs) : ℤ) else Digits.value (digitsIn cs)

/-- The characters before the first exponent mark. -/
def baseOf (s : String) : List Char := s.toList.takeWhile (!isExponentMark ·)

/-- The characters behind the first exponent mark. -/
def exponentOf (s : String) : List Char := (s.toList.dropWhile (!isExponentMark ·)).drop 1

/-- The number that a text spells. -/
def spelled (s : String) : ℚ := spelledBase (baseOf s) * 10 ^ spelledTens (exponentOf s)

/-! ### Characters -/

theorem digitsIn_digit {c : Char} {d : Digit} (h : Digit.ofChar? c = some d) (cs : List Char) :
    digitsIn (c :: cs) = d :: digitsIn cs := by
  rw [digitsIn, List.filterMap_cons_some h]
  rfl

theorem digitsIn_other {c : Char} (h : Digit.ofChar? c = none) (cs : List Char) :
    digitsIn (c :: cs) = digitsIn cs := by
  rw [digitsIn, List.filterMap_cons_none h]
  rfl

theorem placesIn_point (cs : List Char) : placesIn ('.' :: cs) = (digitsIn cs).length := by
  rw [placesIn, List.dropWhile_cons_of_neg (by decide), digitsIn_other (by decide)]

theorem placesIn_other {c : Char} (h : c ≠ '.') (cs : List Char) :
    placesIn (c :: cs) = placesIn cs := by
  rw [placesIn, List.dropWhile_cons_of_pos (by simpa using h)]
  rfl

theorem ne_point_of_digit {c : Char} {d : Digit} (h : Digit.ofChar? c = some d) : c ≠ '.' := by
  rintro rfl
  cases h

theorem isExponentMark_of_digit {c : Char} {d : Digit} (h : Digit.ofChar? c = some d) :
    isExponentMark c = false := by
  obtain rfl := Digit.toChar_of_ofChar? h
  clear h
  decide +revert

/-- Separators hold no digit. -/
theorem digitsIn_dropWhile (cs : List Char) :
    digitsIn (cs.dropWhile (· == '_')) = digitsIn cs := by
  induction cs with
  | nil => rfl
  | cons c cs ih =>
    by_cases hc : c = '_'
    · subst hc
      rw [List.dropWhile_cons_of_pos (by decide), ih, digitsIn_other (by decide)]
    · rw [List.dropWhile_cons_of_neg (by simpa using hc)]

/-! ### Plain notation -/

/-- What is read of a number with a sign: the number itself if it fits. -/
structure IsReading (negative : Bool) (x : ℚ) (d : Decimal) : Prop where
  worth : d.worth = signFactor negative * d.magnitude
  exact : Fits x → d.magnitude = x
  lt : x < mantissaBound

/-- The number that has been read and what is still to be read spell, but for the sign. -/
def Scan.spells (s : Scan) (cs : List Char) : ℚ :=
  Digits.valueFrom s.value.mantissa (digitsIn cs) /
    10 ^ (s.value.scale + if s.pointSeen then (digitsIn cs).length else placesIn cs)

theorem isReading_plainZero (d : Decimal) : IsReading d.negative d.magnitude d.plainZero where
  worth := worth_plainZero d
  exact _ := magnitude_plainZero d
  lt := by
    have hone : (1 : ℚ) ≤ 10 ^ d.scale := one_le_pow₀ (by norm_num)
    have hm : (d.mantissa : ℚ) < mantissaBound := by exact_mod_cast d.mantissa_lt
    exact lt_of_le_of_lt (div_le_self (Nat.cast_nonneg _) hone) hm

/-- A decimal that can take no further place is rounded on digits, and stays where they are zero. -/
theorem isReading_of_isFull {d d' : Decimal} {ds : List Digit}
    (hworth : d'.worth = signFactor d.negative * d'.magnitude)
    (hstays : Digits.value ds = 0 → d'.magnitude = d.magnitude)
    (hfull : IsFull d.mantissa d.scale ds) :
    IsReading d.negative (Digits.valueFrom d.mantissa ds / 10 ^ (d.scale + ds.length)) d' where
  worth := hworth
  exact hfits := by
    have hvalue : Digits.value ds = 0 := by
      by_contra hne
      exact not_fits_of_isFull hfull hne hfits
    rw [hstays hvalue, Digits.valueFrom_eq, hvalue, magnitude, pow_add]
    push_cast
    field_simp
    ring
  lt := by
    have hlt : (Digits.valueFrom d.mantissa ds : ℚ) < (d.mantissa + 1) * 10 ^ ds.length := by
      have := Digits.value_lt ds
      rw [Digits.valueFrom_eq]
      push_cast
      have : (Digits.value ds : ℚ) < 10 ^ ds.length := by exact_mod_cast this
      linarith
    have hm : (d.mantissa + 1 : ℚ) ≤ mantissaBound := by exact_mod_cast d.mantissa_lt
    have hone : (1 : ℚ) ≤ 10 ^ d.scale := one_le_pow₀ (by norm_num)
    rw [div_lt_iff₀ (by positivity), pow_add]
    calc (Digits.valueFrom d.mantissa ds : ℚ)
        < (d.mantissa + 1) * 10 ^ ds.length := hlt
      _ ≤ mantissaBound * (10 ^ d.scale * 10 ^ ds.length) := by
          gcongr
          exact le_mul_of_one_le_left (by positivity) hone

theorem unmarked_of_dropped {cs : List Char} (h : dropped cs = .ok ()) :
    ∀ c ∈ cs, isExponentMark c = false := by
  induction cs with
  | nil => exact List.forall_mem_nil _
  | cons c cs ih =>
    rw [dropped] at h
    split at h
    · next hc =>
      refine List.forall_mem_cons.2 ⟨?_, ih h⟩
      rcases hc with rfl | hc
      · rfl
      · obtain ⟨d, hd⟩ := Option.isSome_iff_exists.1 hc
        exact isExponentMark_of_digit hd
    · cases h

theorem negative_of_roundUp {d d' : Decimal} (h : roundUp d = .ok d') :
    d'.negative = d.negative := by
  unfold roundUp at h
  split at h
  · next hparts =>
    cases h
    exact (parts_of_ofParts? hparts).1
  · split at h
    · cases h
    · split at h
      · next hparts =>
        cases h
        exact (parts_of_ofParts? hparts).1
      · cases h

/-- What rounding can give: the decimal as it is or rounded up. -/
theorem roundOn_cases {d d' : Decimal} {digit : Digit} {rest : List Char}
    (h : roundOn d digit rest = .ok d') :
    ∃ d₁, d' = d₁.plainZero ∧ d₁.negative = d.negative ∧ (digit.val = 0 → d₁ = d) ∧
      dropped rest = .ok () := by
  unfold roundOn at h
  split at h
  · obtain ⟨_, hrest, h⟩ := Outcome.bind_eq_ok_iff.1 (show
      (dropped rest >>= fun _ => pure d.plainZero) = .ok d' from h)
    exact ⟨d, (Except.ok.inj h).symm, rfl, fun _ => rfl, hrest⟩
  · next hlarge =>
    obtain ⟨d₁, hup, h⟩ := Outcome.bind_eq_ok_iff.1 h
    obtain ⟨_, hrest, h⟩ := Outcome.bind_eq_ok_iff.1 h
    exact ⟨d₁, (Except.ok.inj h).symm, negative_of_roundUp hup, fun hzero => by omega, hrest⟩

/-- Rounding on a digit that does not fit. -/
theorem isReading_of_roundOn {d d' : Decimal} {digit : Digit} {rest : List Char} (ds : List Digit)
    (h : roundOn d digit rest = .ok d') (hfull : IsFull d.mantissa d.scale ds)
    (hzero : Digits.value ds = 0 → digit.val = 0) :
    IsReading d.negative (Digits.valueFrom d.mantissa ds / 10 ^ (d.scale + ds.length)) d' ∧
      ∀ c ∈ rest, isExponentMark c = false := by
  obtain ⟨d₁, rfl, hnegative, hsame, hrest⟩ := roundOn_cases h
  refine ⟨isReading_of_isFull ?_ (fun hvalue => ?_) hfull, unmarked_of_dropped hrest⟩
  · rw [worth_plainZero, worth, hnegative, magnitude_plainZero]
  · rw [hsame (hzero hvalue), magnitude_plainZero]

theorem value_cons_eq_zero {d : Digit} {ds : List Digit} (h : Digits.value (d :: ds) = 0) :
    d.val = 0 := by
  have hle : d.val ≤ Digits.value (d :: ds) := by
    rw [Digits.value_cons]
    exact Digits.le_valueFrom d.val ds
  omega

theorem unmarked_of_takeWhile {cs : List Char}
    (h : ∀ c ∈ cs.dropWhile (· == '_'), isExponentMark c = false) :
    ∀ c ∈ cs, isExponentMark c = false := by
  rw [← List.takeWhile_append_dropWhile (p := (· == '_')) (l := cs)]
  refine List.forall_mem_append.2 ⟨fun c hc => ?_, h⟩
  have hall := List.all_eq_true.1 (@List.all_takeWhile _ (· == '_') cs) c hc
  obtain rfl := eq_of_beq hall
  rfl

theorem isReading_of_roundNext_short {d d' : Decimal} {cs : List Char}
    (h : roundNext d false cs = .ok d') (hscale : d.scale = maxScale) :
    IsReading d.negative (Digits.valueFrom d.mantissa (digitsIn cs) /
        10 ^ (d.scale + (digitsIn cs).length)) d' ∧
      ∀ c ∈ cs, isExponentMark c = false := by
  cases cs with
  | nil =>
    obtain rfl := Except.ok.inj h
    exact ⟨isReading_of_isFull (worth_plainZero d) (fun _ => rfl) (.inl hscale),
      List.forall_mem_nil _⟩
  | cons c rest =>
    cases hdigit : Digit.ofChar? c with
    | some digit =>
      have hround : roundOn d digit rest = .ok d' := by
        simpa [roundNext, hdigit] using h
      rw [digitsIn_digit hdigit]
      obtain ⟨hreading, hunmarked⟩ := isReading_of_roundOn (digit :: digitsIn rest) hround
        (.inl hscale) value_cons_eq_zero
      exact ⟨hreading, List.forall_mem_cons.2 ⟨isExponentMark_of_digit hdigit, hunmarked⟩⟩
    | none =>
      by_cases hc : c = '_'
      · subst hc
        have hround : roundOn d Digit.zero rest = .ok d' := by
          simpa [roundNext, hdigit] using h
        rw [digitsIn_other hdigit]
        obtain ⟨hreading, hunmarked⟩ := isReading_of_roundOn (digitsIn rest) hround
          (.inl hscale) fun _ => rfl
        exact ⟨hreading, List.forall_mem_cons.2 ⟨rfl, hunmarked⟩⟩
      · simp [roundNext, hdigit, hc] at h

/-- Rounding on what follows a decimal whose places are all used. -/
theorem isReading_of_roundNext {d d' : Decimal} {long : Bool} {cs : List Char}
    (h : roundNext d long cs = .ok d') (hscale : d.scale = maxScale) :
    IsReading d.negative (Digits.valueFrom d.mantissa (digitsIn cs) /
        10 ^ (d.scale + (digitsIn cs).length)) d' ∧
      ∀ c ∈ cs, isExponentMark c = false := by
  cases long with
  | false => exact isReading_of_roundNext_short h hscale
  | true =>
    -- The separators that are skipped hold no digit.
    have hskip : roundNext d false (cs.dropWhile (· == '_')) = .ok d' := h
    obtain ⟨hreading, hunmarked⟩ := isReading_of_roundNext_short hskip hscale
    rw [digitsIn_dropWhile] at hreading
    exact ⟨hreading, unmarked_of_takeWhile hunmarked⟩

/-! ### The characters of a scan

What the next character of a scan can come to, and what it makes of what is spelled.
-/

/-- The next character is dropped with all after it, taken as a digit, rounded on as a digit that
does not fit, or passed over as the point or a separator. -/
theorem Scan.run_cons_cases {s : Scan} {c : Char} {cs : List Char} {d : Decimal}
    (h : s.run (c :: cs) = .ok d) :
    s.full = true ∧ roundNext s.value s.long (c :: cs) = .ok d ∨
    (∃ digit value, Digit.ofChar? c = some digit ∧
      s.value.push? digit s.pointSeen = some value ∧ (s.push value).run cs = .ok d) ∨
    (∃ digit, s.full = false ∧ Digit.ofChar? c = some digit ∧ s.pointSeen = true ∧
      s.value.push? digit s.pointSeen = none ∧ roundOn s.value digit cs = .ok d) ∨
    c = '.' ∧ s.pointSeen = false ∧ Scan.run { s with pointSeen := true } cs = .ok d ∨
    c = '_' ∧ s.run cs = .ok d := by
  rw [Scan.run] at h
  cases hfull : s.full with
  | true =>
    rw [if_pos hfull] at h
    exact .inl ⟨rfl, h⟩
  | false =>
    rw [if_neg (Bool.eq_false_iff.1 hfull)] at h
    cases hdigit : Digit.ofChar? c with
    | some digit =>
      rw [hdigit] at h
      dsimp only at h
      cases hpush : s.value.push? digit s.pointSeen with
      | some value =>
        rw [hpush] at h
        exact .inr (.inl ⟨digit, value, rfl, hpush, h⟩)
      | none =>
        rw [hpush] at h
        dsimp only at h
        split at h
        · next hpoint => exact .inr (.inr (.inl ⟨digit, rfl, rfl, hpoint, hpush, h⟩))
        · cases h
    | none =>
      rw [hdigit] at h
      dsimp only at h
      split at h
      · next hc => exact .inr (.inr (.inr (.inl ⟨hc.1, hc.2, h⟩)))
      · split at h
        · next hc => exact .inr (.inr (.inr (.inr ⟨hc.1, h⟩)))
        · cases h

/-- Behind the point every digit is a place. -/
theorem spells_of_pointSeen {s : Scan} (hpoint : s.pointSeen = true) (cs : List Char) :
    s.spells cs = Digits.valueFrom s.value.mantissa (digitsIn cs) /
      10 ^ (s.value.scale + (digitsIn cs).length) := by
  rw [Scan.spells, hpoint, if_pos rfl]

/-- Where nothing is left, what has been read is spelled. -/
theorem spells_nil (s : Scan) : s.spells [] = s.value.magnitude := by
  cases hpoint : s.pointSeen <;>
    simp [Scan.spells, hpoint, digitsIn, placesIn, magnitude, Digits.valueFrom]

/-- A digit that is taken makes no difference to what is spelled. -/
theorem spells_push {s : Scan} {value : Decimal} {c : Char} {digit : Digit}
    (hdigit : Digit.ofChar? c = some digit)
    (hpush : s.value.push? digit s.pointSeen = some value) (cs : List Char) :
    (s.push value).spells cs = s.spells (c :: cs) ∧ (s.push value).value = value ∧
      value.negative = s.value.negative := by
  obtain ⟨hnegative, hmantissa, hscale⟩ := parts_of_ofParts? hpush
  refine ⟨?_, rfl, hnegative⟩
  have hpoint : (s.push value).pointSeen = s.pointSeen := rfl
  have hvalue : (s.push value).value = value := rfl
  rw [Scan.spells, Scan.spells, hpoint, hvalue, hmantissa, hscale, digitsIn_digit hdigit,
    Digits.valueFrom_cons, placesIn_other (ne_point_of_digit hdigit), List.length_cons]
  cases s.pointSeen with
  | true => simp [Nat.add_assoc, Nat.add_comm 1]
  | false => rfl

/-- The point turns the digits behind it into places. -/
theorem spells_point {s : Scan} (hpoint : s.pointSeen = false) (cs : List Char) :
    s.spells ('.' :: cs) = Scan.spells { s with pointSeen := true } cs := by
  rw [Scan.spells, hpoint, digitsIn_other (by decide), placesIn_point]
  rfl

/-- A separator spells nothing. -/
theorem spells_separator (s : Scan) (cs : List Char) : s.spells ('_' :: cs) = s.spells cs := by
  rw [Scan.spells, digitsIn_other (by decide), placesIn_other (by decide)]
  rfl

theorem overflow_of_push? {s : Scan} {digit : Digit} (hfull : s.full = false)
    (h : s.value.push? digit s.pointSeen = none) :
    mantissaBound ≤ s.value.mantissa * 10 + digit.val := by
  have hscale := s.value.scale_le
  have hplaces : (if s.pointSeen then s.value.scale + 1 else s.value.scale) ≤ maxScale := by
    split
    · next hpoint =>
      have hne : s.value.scale ≠ maxScale := fun he =>
        Bool.eq_false_iff.1 hfull (Bool.and_eq_true_iff.2 ⟨hpoint, beq_iff_eq.2 he⟩)
      omega
    · exact hscale
  by_contra hlt
  rw [push?, ofParts?, dif_pos ⟨Nat.lt_of_not_le hlt, hplaces⟩] at h
  cases h

/-- A digit behind the point that does not fit is rounded on, with all the digits after it. -/
theorem isReading_of_overflow {s : Scan} {c : Char} {cs : List Char} {digit : Digit} {d : Decimal}
    (hfull : s.full = false) (hdigit : Digit.ofChar? c = some digit) (hpoint : s.pointSeen = true)
    (hpush : s.value.push? digit s.pointSeen = none) (h : roundOn s.value digit cs = .ok d) :
    IsReading s.value.negative (s.spells (c :: cs)) d ∧ ∀ c ∈ cs, isExponentMark c = false := by
  rw [spells_of_pointSeen hpoint, digitsIn_digit hdigit]
  exact isReading_of_roundOn (digit :: digitsIn cs) h
    (.inr ⟨digit, _, rfl, overflow_of_push? hfull hpush⟩) value_cons_eq_zero

/-- Plain notation is read as what it spells, or rounded where that does not fit. -/
theorem isReading_of_run {s : Scan} {cs : List Char} {d : Decimal} (h : s.run cs = .ok d) :
    IsReading s.value.negative (s.spells cs) d ∧ ∀ c ∈ cs, isExponentMark c = false := by
  induction cs generalizing s with
  | nil =>
    rw [Scan.run] at h
    split at h
    · obtain rfl := Except.ok.inj h
      rw [spells_nil]
      exact ⟨isReading_plainZero s.value, List.forall_mem_nil _⟩
    · cases h
  | cons c cs ih =>
    obtain ⟨hfull, hrest⟩ | ⟨digit, value, hdigit, hpush, hrest⟩ |
      ⟨digit, hfull, hdigit, hpoint, hpush, hrest⟩ | ⟨rfl, hpoint, hrest⟩ | ⟨rfl, hrest⟩ :=
        Scan.run_cons_cases h
    · obtain ⟨hpoint, hscale⟩ := Bool.and_eq_true_iff.1 hfull
      rw [spells_of_pointSeen hpoint]
      exact isReading_of_roundNext hrest (eq_of_beq hscale)
    · obtain ⟨hspells, hvalue, hnegative⟩ := spells_push hdigit hpush cs
      obtain ⟨hreading, hunmarked⟩ := ih hrest
      rw [hspells, hvalue, hnegative] at hreading
      exact ⟨hreading, List.forall_mem_cons.2 ⟨isExponentMark_of_digit hdigit, hunmarked⟩⟩
    · obtain ⟨hreading, hunmarked⟩ := isReading_of_overflow hfull hdigit hpoint hpush hrest
      exact ⟨hreading, List.forall_mem_cons.2 ⟨isExponentMark_of_digit hdigit, hunmarked⟩⟩
    · obtain ⟨hreading, hunmarked⟩ := ih hrest
      rw [spells_point hpoint]
      exact ⟨hreading, List.forall_mem_cons.2 ⟨rfl, hunmarked⟩⟩
    · obtain ⟨hreading, hunmarked⟩ := ih hrest
      rw [spells_separator]
      exact ⟨hreading, List.forall_mem_cons.2 ⟨rfl, hunmarked⟩⟩

theorem spells_begin (negative : Bool) (cs : List Char) :
    (Scan.begin negative).spells cs = spelledMagnitude cs := by
  rw [Scan.spells, spelledMagnitude]
  simp [Scan.begin, zero, Digits.value, Digits.valueFrom]

theorem isReading_of_begin {negative : Bool} {cs : List Char} {d : Decimal}
    (h : (Scan.begin negative).run cs = .ok d) :
    IsReading negative (spelledMagnitude cs) d ∧ ∀ c ∈ cs, isExponentMark c = false := by
  have hreading := isReading_of_run h
  rwa [spells_begin] at hreading

theorem spelledMagnitude_sign {c : Char} (hdigit : Digit.ofChar? c = none) (hpoint : c ≠ '.')
    (cs : List Char) : spelledMagnitude (c :: cs) = spelledMagnitude cs := by
  rw [spelledMagnitude, digitsIn_other hdigit, placesIn_other hpoint]
  rfl

theorem isReading_of_plain {cs : List Char} {d : Decimal} (h : plain cs = .ok d) :
    IsReading (cs.head? == some '-') (spelledMagnitude cs) d ∧
      ∀ c ∈ cs, isExponentMark c = false := by
  rw [plain.eq_def] at h
  split at h
  · cases h
  · next cs =>
    obtain ⟨hreading, hunmarked⟩ := isReading_of_begin h
    rw [spelledMagnitude_sign (by decide) (by decide)]
    exact ⟨hreading, List.forall_mem_cons.2 ⟨rfl, hunmarked⟩⟩
  · next cs =>
    obtain ⟨hreading, hunmarked⟩ := isReading_of_begin h
    rw [spelledMagnitude_sign (by decide) (by decide)]
    exact ⟨hreading, List.forall_mem_cons.2 ⟨rfl, hunmarked⟩⟩
  · next hminus _ =>
    have hhead : (cs.head? == some '-') = false := by
      cases cs with
      | nil => rfl
      | cons c cs =>
        have hc : c ≠ '-' := fun he => hminus cs (congrArg (· :: cs) he)
        simpa using hc
    rw [hhead]
    exact isReading_of_begin h

theorem spelledMagnitude_nonneg (cs : List Char) : 0 ≤ spelledMagnitude cs := by
  unfold spelledMagnitude
  positivity

/-- What is read in plain notation is what the characters spell, if any decimal is worth that. -/
theorem IsReading.worth_eq_iff {negative : Bool} {x : ℚ} {d : Decimal}
    (h : IsReading negative x d) (hx : 0 ≤ x) :
    d.worth = signFactor negative * x ↔ IsRepresentable (signFactor negative * x) := by
  constructor
  · exact fun he => ⟨d, he⟩
  · intro hrep
    rw [h.worth, h.exact ((isRepresentable_iff_fits negative hx).1 hrep)]

/-! ### Powers of ten -/

theorem digitsIn_of_forall₂ {cs : List Char} {ds : List Digit}
    (h : List.Forall₂ (fun c d => Digit.ofChar? c = some d) cs ds) : digitsIn cs = ds := by
  induction h with
  | nil => rfl
  | cons hd _ ih => rw [digitsIn_digit hd, ih]

theorem value_of_mapM {cs : List Char} {n : Nat}
    (h : (match cs.mapM Digit.ofChar? with
      | some ds => if Digits.value ds < UInt32.size then some (Digits.value ds) else none
      | none => none) = some n) :
    Digits.value (digitsIn cs) = n := by
  cases hds : cs.mapM Digit.ofChar? with
  | none =>
    rw [hds] at h
    cases h
  | some ds =>
    rw [hds] at h
    dsimp only at h
    split at h
    · rw [digitsIn_of_forall₂ (Outcome.optionMapM_eq_some_iff.1 hds)]
      exact Option.some.inj h
    · cases h

theorem value_of_magnitude? {cs : List Char} {n : Nat} (h : magnitude? cs = some n) :
    Digits.value (digitsIn cs) = n := by
  unfold magnitude? at h
  split at h
  all_goals
    dsimp only at h
    split at h
    · cases h
  · rw [digitsIn_other (by decide)]
    exact value_of_mapM h
  · exact value_of_mapM h

theorem of_shiftRight {d d' : Decimal} {places : Nat} (h : shiftRight d places = .ok d') :
    d'.worth = d.worth * 10 ^ places := by
  unfold shiftRight at h
  split at h
  · cases h
  · split at h
    · next hparts =>
      obtain rfl := Except.ok.inj h
      obtain ⟨hnegative, hmantissa, hscale⟩ := parts_of_ofParts? hparts
      rw [worth, worth, hnegative, mul_assoc, magnitude, magnitude, hmantissa, hscale,
        Nat.pow_eq]
      congr 1
      push_cast
      rw [div_mul_eq_mul_div, div_eq_div_iff (by positivity) (by positivity), mul_assoc, mul_assoc,
        ← pow_add, ← pow_add]
      congr 2
      omega
    · cases h

theorem roundedQuotient_mul (n places : Nat) :
    roundedQuotient (n * 10 ^ places) places = n := by
  have hpos (k : Nat) : 0 < 10 ^ k := Nat.pow_pos (by decide)
  rw [roundedQuotient, Nat.pow_eq, Nat.pow_eq, Nat.mul_div_cancel _ (hpos places)]
  cases places with
  | zero => simp
  | succ places =>
    have hlast : n * 10 ^ (places + 1) / 10 ^ places = n * 10 := by
      rw [pow_succ, mul_comm (10 ^ places), ← mul_assoc, Nat.mul_div_cancel _ (hpos places)]
    rw [Nat.add_sub_cancel, hlast, Nat.mul_mod_left]
    rfl

/-- The digits beyond the last place are zero in a mantissa that fits at a larger scale. -/
theorem exists_of_fits_div {d : Decimal} {places : Nat} (h : Fits (d.magnitude / 10 ^ places)) :
    ∃ n, d.mantissa = n * 10 ^ (d.scale + places - maxScale) := by
  obtain ⟨m, k, _, hk, he⟩ := h
  rcases Nat.le_total (d.scale + places) maxScale with hle | hle
  · exact ⟨d.mantissa, by rw [Nat.sub_eq_zero_of_le hle, pow_zero, mul_one]⟩
  · obtain ⟨excess, hexcess⟩ := Nat.exists_eq_add_of_le hle
    obtain ⟨j, hj⟩ := Nat.exists_eq_add_of_le hk
    have hcross : d.mantissa * 10 ^ k = m * 10 ^ (d.scale + places) := by
      rw [magnitude, div_div, ← pow_add, div_eq_div_iff (by positivity) (by positivity)] at he
      exact_mod_cast he
    refine ⟨m * 10 ^ j, Nat.eq_of_mul_eq_mul_right (Nat.pow_pos (by decide) : 0 < 10 ^ k) ?_⟩
    rw [hcross, hexcess, Nat.add_sub_cancel_left, hj]
    ring

/-- Moving the point to the left gives the very number if that fits. -/
theorem of_shiftLeft {d d' : Decimal} {places : Nat} (h : shiftLeft d places = .ok d')
    (hfits : Fits (d.magnitude / 10 ^ places)) : d'.worth = d.worth / 10 ^ places := by
  unfold shiftLeft at h
  split at h
  · cases h
  · dsimp only at h
    split at h
    · next hparts =>
      obtain rfl := Except.ok.inj h
      obtain ⟨hnegative, hmantissa, hscale⟩ := parts_of_ofParts? hparts
      -- The places that are dropped are zero.
      obtain ⟨n, hn⟩ := exists_of_fits_div hfits
      rw [hn, roundedQuotient_mul] at hmantissa
      rw [worth, worth, hnegative, mul_div_assoc, magnitude, magnitude, hmantissa, hscale, hn]
      congr 1
      push_cast
      rw [div_div, div_eq_div_iff (by positivity) (by positivity), mul_assoc, ← pow_add, ← pow_add]
      congr 2
      omega
    · cases h

/-- Moving the point to the right gives what a base spells exactly if the base can be read so. -/
theorem IsReading.shiftRight_worth_iff {negative : Bool} {x : ℚ} {b d : Decimal} {places : Nat}
    (h : IsReading negative x b) (hx : 0 ≤ x) (hshift : shiftRight b places = .ok d) :
    d.worth = signFactor negative * x * 10 ^ places ↔
      IsRepresentable (signFactor negative * x) ∧
        IsRepresentable (signFactor negative * x * 10 ^ places) := by
  have hiff : d.worth = signFactor negative * x * 10 ^ places ↔
      b.worth = signFactor negative * x := by
    rw [of_shiftRight hshift, mul_left_inj' (by positivity)]
  have hbase := h.worth_eq_iff hx
  rw [hiff, hbase]
  exact ⟨fun hrep => ⟨hrep, d, hiff.2 (hbase.2 hrep)⟩, And.left⟩

/-- Moving the point to the left gives what a base spells exactly if both can be read so. -/
theorem IsReading.shiftLeft_worth_iff {negative : Bool} {x : ℚ} {b d : Decimal} {places : Nat}
    (h : IsReading negative x b) (hx : 0 ≤ x) (hshift : shiftLeft b places = .ok d) :
    d.worth = signFactor negative * x / 10 ^ places ↔
      IsRepresentable (signFactor negative * x) ∧
        IsRepresentable (signFactor negative * x / 10 ^ places) := by
  have hwhole : IsRepresentable (signFactor negative * x / 10 ^ places) →
      Fits (x / 10 ^ places) := by
    rw [mul_div_assoc]
    exact (isRepresentable_iff_fits _ (by positivity)).1
  constructor
  · intro he
    have hrep : IsRepresentable (signFactor negative * x / 10 ^ places) := ⟨d, he⟩
    exact ⟨(isRepresentable_iff_fits _ hx).2 (fits_of_div h.lt (hwhole hrep)), hrep⟩
  · rintro ⟨hrep, hrep'⟩
    have hmagnitude := h.exact ((isRepresentable_iff_fits _ hx).1 hrep)
    rw [of_shiftLeft hshift (hmagnitude ▸ hwhole hrep'), (h.worth_eq_iff hx).2 hrep]

/-- A base with a power of ten is read as what it spells exactly if both can be. -/
theorem scientific_worth_iff {base exponent : List Char} {d : Decimal}
    (h : scientific base exponent = .ok d) :
    d.worth = spelledBase base * 10 ^ spelledTens exponent ↔
      IsRepresentable (spelledBase base) ∧
        IsRepresentable (spelledBase base * 10 ^ spelledTens exponent) := by
  obtain ⟨b, hb, hshift⟩ := Outcome.bind_eq_ok_iff.1 h
  have hreading := (isReading_of_plain hb).1
  have hnonneg := spelledMagnitude_nonneg base
  clear h
  split at hshift
  · next cs =>
    cases hplaces : magnitude? cs with
    | none =>
      rw [hplaces] at hshift
      cases hshift
    | some places =>
      rw [hplaces] at hshift
      have htens : spelledTens ('-' :: cs) = -(places : ℤ) := by
        rw [spelledTens, List.head?_cons, if_pos rfl, digitsIn_other (by decide),
          value_of_magnitude? hplaces]
      rw [htens, zpow_neg, zpow_natCast, ← div_eq_mul_inv]
      exact hreading.shiftLeft_worth_iff hnonneg hshift
  · next hminus =>
    cases hplaces : magnitude? exponent with
    | none =>
      rw [hplaces] at hshift
      cases hshift
    | some places =>
      rw [hplaces] at hshift
      have htens : spelledTens exponent = (places : ℤ) := by
        rw [spelledTens, if_neg, value_of_magnitude? hplaces]
        intro hhead
        obtain ⟨cs, hcs⟩ := List.head?_eq_some_iff.1 hhead
        exact hminus cs hcs
      rw [htens, zpow_natCast]
      exact hreading.shiftRight_worth_iff hnonneg hshift

/-- A text is read as what it spells exactly if there are decimals worth as much as its base and as
the whole of it. -/
theorem worth_eq_spelled_iff {s : String} {d : Decimal} (h : read s = .ok d) :
    d.worth = spelled s ↔
      IsRepresentable (spelledBase (baseOf s)) ∧ IsRepresentable (spelled s) := by
  unfold read readChars at h
  split at h
  · next d' hplain =>
    obtain rfl := Except.ok.inj h
    obtain ⟨hreading, hunmarked⟩ := isReading_of_plain hplain
    have hbefore : ∀ c ∈ s.toList, (!isExponentMark c) = true := fun c hc => by
      rw [hunmarked c hc]
      rfl
    have hbase : baseOf s = s.toList := List.takeWhile_eq_self_iff.2 hbefore
    have hexponent : exponentOf s = [] := by
      rw [exponentOf, List.dropWhile_eq_nil_iff.2 hbefore]
      rfl
    have hspelled : spelled s = spelledBase s.toList := by
      rw [spelled, hbase, hexponent]
      simp [spelledTens, digitsIn, Digits.value]
    rw [hspelled, hbase, and_self]
    exact hreading.worth_eq_iff (spelledMagnitude_nonneg _)
  · split at h
    · cases h
    · next mark exponent hdrop =>
      have hexponent : exponentOf s = exponent := by
        rw [exponentOf, hdrop]
        rfl
      rw [spelled, hexponent]
      exact scientific_worth_iff h

end Decimal

end MarketFeed
