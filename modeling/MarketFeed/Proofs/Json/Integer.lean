import MarketFeed.Proofs.Json.Raw
import MarketFeed.Proofs.Json.View
import MarketFeed.Proofs.Text.Blank
import MarketFeed.Proofs.Text.Digits

/-!
# Integers in every spelling

A text spells a natural number with digits, which zeros and a plus sign may precede, between blanks
(`Text.SpellsNat`).  A tree denotes the number of a numeral that has digits only, or what a string
spells (`Json.Node.DenotesNat`), and never two numbers.  It means what the tree that it stands for
denotes (`Json.Node.MeansNat`).  Integers of 64 bits are read from the trees that mean one and from
no others (`Json.Codec.word_read_iff`).
-/

namespace MarketFeed

/-- A text spells a natural number: blanks, a plus sign or none, digits, and blanks. -/
def Text.SpellsNat (s : String) (n : Nat) : Prop :=
  ∃ before sign ds after, s.toList = before ++ (sign ++ Digits.chars ds ++ after) ∧
    AreBlank before ∧ AreBlank after ∧ (sign = [] ∨ sign = ['+']) ∧ ds ≠ [] ∧
    Digits.value ds = n

/-- A sign and digits have no blanks in them. -/
theorem Text.notBlank_signed {sign : List Char} (hsign : sign = [] ∨ sign = ['+'])
    (ds : List Digit) : ∀ c ∈ sign ++ Digits.chars ds, isBlank c = false := by
  intro c hc
  rcases List.mem_append.1 hc with hc | hc
  · rcases hsign with rfl | rfl
    · cases hc
    · obtain rfl := List.mem_singleton.1 hc
      decide
  · obtain ⟨d, _, rfl⟩ := List.mem_map.1 hc
    exact isBlank_toChar d

/-- A text spells a number if trimming leaves a sign and the digits of the number. -/
theorem Text.spellsNat_iff {s : String} {n : Nat} :
    SpellsNat s n ↔ ∃ sign ds, trim s.toList = sign ++ Digits.chars ds ∧
      (sign = [] ∨ sign = ['+']) ∧ ds ≠ [] ∧ Digits.value ds = n := by
  constructor
  · rintro ⟨before, sign, ds, after, hs, hbefore, hafter, hsign, hne, hvalue⟩
    have htrim := (trim_eq_iff (notBlank_signed hsign ds)).2 ⟨before, after, hs, hbefore, hafter⟩
    exact ⟨sign, ds, htrim, hsign, hne, hvalue⟩
  · rintro ⟨sign, ds, htrim, hsign, hne, hvalue⟩
    obtain ⟨before, after, hs, hbefore, hafter⟩ := (trim_eq_iff (notBlank_signed hsign ds)).1 htrim
    exact ⟨before, sign, ds, after, hs, hbefore, hafter, hsign, hne, hvalue⟩

theorem Text.digits_eq_of_signed {sign sign' : List Char} {ds ds' : List Digit}
    (hsign : sign = [] ∨ sign = ['+']) (hsign' : sign' = [] ∨ sign' = ['+']) (hne : ds ≠ [])
    (hne' : ds' ≠ []) (h : sign ++ Digits.chars ds = sign' ++ Digits.chars ds') : ds = ds' := by
  have hplus : ∀ {es es' : List Digit}, es ≠ [] → Digits.chars es ≠ '+' :: Digits.chars es' := by
    intro es es' hes hchars
    obtain ⟨e, es, rfl⟩ := List.exists_cons_of_ne_nil hes
    exact (Digit.toChar_ne_sign e).2 (List.cons.inj hchars).1
  have hinjective : Function.Injective Digits.chars :=
    List.map_injective_iff.2 Digit.toChar_injective
  -- No digit is a plus sign, so both texts have one or neither has.
  rcases hsign with rfl | rfl <;> rcases hsign' with rfl | rfl
  · exact hinjective h
  · exact absurd h (hplus hne)
  · exact absurd h.symm (hplus hne')
  · exact hinjective (List.cons.inj h).2

/-- A text spells one number only. -/
theorem Text.SpellsNat.unique {s : String} {n m : Nat} (hn : SpellsNat s n) (hm : SpellsNat s m) :
    n = m := by
  obtain ⟨sign, ds, htrim, hsign, hne, rfl⟩ := spellsNat_iff.1 hn
  obtain ⟨sign', ds', htrim', hsign', hne', rfl⟩ := spellsNat_iff.1 hm
  rw [digits_eq_of_signed hsign hsign' hne hne' (htrim.symm.trans htrim')]

namespace Json

/-- A tree denotes a natural number: a numeral of digits only, or a string that spells it. -/
def Node.DenotesNat : Node → Nat → Prop
  | number numeral, n => ∃ ds, numeral = ⟨false, ds, none, none⟩ ∧ Digits.value ds = n
  | string body, n => ∃ s, StringPart.decode? body = some s ∧ Text.SpellsNat s n
  | _, _ => False

/-- A tree denotes one number only. -/
theorem Node.DenotesNat.unique {t : Node} {n m : Nat} (hn : t.DenotesNat n) (hm : t.DenotesNat m) :
    n = m := by
  cases t with
  | number numeral =>
    obtain ⟨ds, rfl, rfl⟩ := hn
    obtain ⟨ds', hds, rfl⟩ := hm
    cases hds
    rfl
  | string body =>
    obtain ⟨s, hs, hn⟩ := hn
    obtain ⟨s', hs', hm⟩ := hm
    obtain rfl := Option.some.inj (hs.symm.trans hs')
    exact hn.unique hm
  | _ => cases hn

/-- What a tree stands for denotes a natural number. -/
def Node.MeansNat (levels : Nat) (t : Node) (n : Nat) : Prop :=
  ∃ u, t.StandsFor levels u ∧ u.DenotesNat n

theorem Node.DenotesNat.not_wraps {t : Node} {n : Nat} (h : t.DenotesNat n) (s : String) :
    ¬t.Wraps s := by
  rintro ⟨⟩
  cases h

/-- A tree that wraps no text means what it denotes. -/
theorem Node.meansNat_iff {levels : Nat} {t : Node} {n : Nat} (hwraps : ∀ s, ¬t.Wraps s) :
    t.MeansNat levels n ↔ t.DenotesNat n := by
  simp only [MeansNat, standsFor_iff hwraps, exists_eq_left]

/-- A tree that denotes a number means it. -/
theorem Node.DenotesNat.means {t : Node} {n : Nat} (h : t.DenotesNat n) (levels : Nat) :
    t.MeansNat levels n :=
  (meansNat_iff h.not_wraps).2 h

theorem Node.MeansNat.succ {levels : Nat} {t : Node} {n : Nat} (h : t.MeansNat levels n)
    (levels' : Nat) : t.MeansNat (levels' + 1) n := by
  obtain ⟨u, hu, hn⟩ := h
  exact ⟨u, hu.succ levels', hn⟩

/-- A tree means one number only. -/
theorem Node.MeansNat.unique {levels levels' : Nat} {t : Node} {n m : Nat}
    (hn : t.MeansNat levels n) (hm : t.MeansNat levels' m) : n = m := by
  obtain ⟨u, hu, hn⟩ := hn
  obtain ⟨u', hu', hm⟩ := hm
  obtain rfl := hu.unique hu'
  exact hn.unique hm

theorem Node.MeansNat.not_standsFor_null {levels levels' : Nat} {t : Node} {n : Nat}
    (h : t.MeansNat levels n) : ¬t.StandsFor levels' null := by
  intro hnull
  obtain ⟨u, hu, hn⟩ := h
  obtain rfl := hu.unique hnull
  cases hn

namespace Codec

/-! ### Texts -/

/-- Digits are read behind a number if what they spell with it has 64 bits. -/
theorem readWord_eq_ok_iff {m n : Nat} {cs : List Char} (hm : m < UInt64.size) :
    readWord m cs = .ok n ↔
      ∃ ds, cs = Digits.chars ds ∧ Digits.valueFrom m ds = n ∧ n < UInt64.size := by
  -- The number read so far stays below the bound: it never exceeds what it ends in.
  induction cs generalizing m with
  | nil =>
    constructor
    · intro h
      obtain rfl := Except.ok.inj h
      exact ⟨[], rfl, rfl, hm⟩
    · rintro ⟨ds, hds, hvalue, _⟩
      obtain rfl := List.map_eq_nil_iff.1 hds.symm
      exact congrArg Except.ok hvalue
  | cons c cs ih =>
    rw [readWord]
    constructor
    · intro h
      split at h
      · cases h
      · next d hd =>
        split_ifs at h with hlt
        obtain ⟨ds, rfl, hvalue, hn⟩ := (ih hlt).1 h
        refine ⟨d :: ds, ?_, hvalue, hn⟩
        exact congrArg (· :: Digits.chars ds) (Digit.toChar_of_ofChar? hd).symm
    · rintro ⟨ds, hds, hvalue, hn⟩
      cases ds with
      | nil => cases hds
      | cons d ds =>
        obtain ⟨rfl, rfl⟩ := List.cons.inj hds
        rw [Digits.valueFrom_cons] at hvalue
        have hlt : m * 10 + d.val < UInt64.size := by
          have hle := Digits.le_valueFrom (m * 10 + d.val) ds
          omega
        rw [Digit.ofChar?_toChar]
        dsimp only
        rw [if_pos hlt]
        exact (ih hlt).2 ⟨ds, rfl, hvalue, hn⟩

theorem readSignedWord_digits (d : Digit) (ds : List Digit) :
    readSignedWord (Digits.chars (d :: ds)) = readWord 0 (Digits.chars (d :: ds)) := by
  obtain ⟨_, hplus⟩ := Digit.toChar_ne_sign d
  unfold readSignedWord
  split
  · next h => cases h
  · next h => exact absurd (List.cons.inj h).1 hplus
  · next h => exact absurd (List.cons.inj h).1 hplus
  · rfl

theorem readSignedWord_plus (d : Digit) (ds : List Digit) :
    readSignedWord ('+' :: Digits.chars (d :: ds)) = readWord 0 (Digits.chars (d :: ds)) := rfl

theorem readSignedWord_eq_ok_iff {cs : List Char} {n : Nat} :
    readSignedWord cs = .ok n ↔
      ∃ sign ds, cs = sign ++ Digits.chars ds ∧ (sign = [] ∨ sign = ['+']) ∧ ds ≠ [] ∧
        Digits.value ds = n ∧ n < UInt64.size := by
  constructor
  · intro h
    unfold readSignedWord at h
    split at h
    · cases h
    · cases h
    · next cs hne =>
      obtain ⟨ds, rfl, hvalue, hn⟩ := (readWord_eq_ok_iff (by decide)).1 h
      refine ⟨['+'], ds, rfl, Or.inr rfl, ?_, hvalue, hn⟩
      rintro rfl
      exact hne rfl
    · next hne _ _ =>
      obtain ⟨ds, rfl, hvalue, hn⟩ := (readWord_eq_ok_iff (by decide)).1 h
      refine ⟨[], ds, rfl, Or.inl rfl, ?_, hvalue, hn⟩
      rintro rfl
      exact hne rfl
  · rintro ⟨sign, ds, rfl, hsign, hne, hvalue, hn⟩
    obtain ⟨d, ds, rfl⟩ := List.exists_cons_of_ne_nil hne
    have hread := (readWord_eq_ok_iff (by decide)).2 ⟨d :: ds, rfl, hvalue, hn⟩
    rcases hsign with rfl | rfl
    · exact (readSignedWord_digits d ds).trans hread
    · exact (readSignedWord_plus d ds).trans hread

theorem readWordText_eq_ok_iff {s : String} {n : UInt64} :
    readWordText s = .ok n ↔ Text.SpellsNat s n.toNat := by
  have hcause : readWordText s = .ok n ↔
      readSignedWord (Text.trim s.toList) = .ok n.toNat := by
    unfold readWordText
    cases hread : readSignedWord (Text.trim s.toList) with
    | error cause => simp
    | ok m =>
      obtain ⟨_, _, _, _, _, _, hm⟩ := readSignedWord_eq_ok_iff.1 hread
      simp only [Except.ok.injEq]
      constructor
      · rintro rfl
        exact (UInt64.toNat_ofNat_of_lt' hm).symm
      · rintro rfl
        exact UInt64.ofNat_toNat
  rw [hcause, readSignedWord_eq_ok_iff, Text.spellsNat_iff]
  constructor
  · rintro ⟨sign, ds, htrim, hsign, hne, hvalue, _⟩
    exact ⟨sign, ds, htrim, hsign, hne, hvalue⟩
  · rintro ⟨sign, ds, htrim, hsign, hne, hvalue⟩
    exact ⟨sign, ds, htrim, hsign, hne, hvalue, n.toNat_lt⟩

/-! ### Trees -/

/-- A numeral stands for a natural number of 64 bits if it has digits only. -/
theorem number?_eq_natural_iff {numeral : Numeral} {n : UInt64} :
    numeral.number? = some (.natural n) ↔
      ∃ ds, numeral = ⟨false, ds, none, none⟩ ∧ Digits.value ds = n.toNat := by
  obtain ⟨negative, ds, fraction, exponent⟩ := numeral
  constructor
  · intro h
    unfold Numeral.number? at h
    dsimp only at h
    split_ifs at h with hnatural hnegative
    · obtain rfl := Number.natural.inj (Option.some.inj h)
      simp only [Numeral.isWhole, Bool.and_eq_true, Option.isNone_iff_eq_none, Bool.not_eq_true',
        decide_eq_true_eq] at hnatural
      obtain ⟨⟨⟨rfl, rfl⟩, rfl⟩, hlt⟩ := hnatural
      exact ⟨ds, rfl, (UInt64.toNat_ofNat_of_lt' hlt).symm⟩
    · cases h
    · obtain ⟨_, _, hreal⟩ := Option.map_eq_some_iff.1 h
      cases hreal
  · rintro ⟨ds, hnumeral, hvalue⟩
    cases hnumeral
    have hlt : n.toNat < UInt64.size := n.toNat_lt
    simp [Numeral.number?, Numeral.isWhole, hvalue, hlt]

theorem wordOf_eq_ok_iff {v : Value} {n : UInt64} :
    wordOf v = .ok n ↔ v = .number (.natural n) ∨ ∃ s, v = .string s ∧ readWordText s = .ok n := by
  cases v with
  | number x => cases x <;> simp [wordOf]
  | _ => simp [wordOf]

/-- The value of a tree is an integer of 64 bits exactly if the tree denotes it. -/
theorem leaf?_wordOf_iff {u : Node} {n : UInt64} :
    (∃ v, u.leaf? = some v ∧ wordOf v = .ok n) ↔ u.DenotesNat n.toNat := by
  simp only [wordOf_eq_ok_iff]
  cases u with
  | number numeral =>
    refine Iff.trans ?_ number?_eq_natural_iff
    cases hn : numeral.number? <;> simp [Node.leaf?, hn]
  | string body =>
    refine Iff.trans ?_ (exists_congr fun s => and_congr_right fun _ => readWordText_eq_ok_iff)
    cases hs : StringPart.decode? body <;> simp [Node.leaf?, hs]
  | _ => simp [Node.leaf?, Node.DenotesNat]

/-- An integer of 64 bits is read from a tree exactly if the tree means it. -/
theorem word_read_iff {levels : Nat} {t : Node} {n : UInt64} :
    word.read levels t = .ok n ↔ t.MeansNat levels n.toNat := by
  have hleaf : ∀ v m, wordOf v = .ok m → v.isLeaf = true := by
    intro v m hm
    obtain rfl | ⟨s, rfl, _⟩ := wordOf_eq_ok_iff.1 hm <;> rfl
  refine (Value.bind_ofNode_iff hleaf).trans (exists_congr fun u => and_congr_right fun _ => ?_)
  exact leaf?_wordOf_iff

end Codec

end Json

end MarketFeed
