import Mathlib.Data.List.Induction
import Mathlib.Tactic.Ring
import MarketFeed.Proofs.Outcome
import MarketFeed.Text.Digits

/-!
# Digits there and back

A digit is read back from its octet and from its character.  Digits without superfluous zeros
(`Digits.isPlain`) are the digits of the number they spell (`ofNat_value`), and the digits of a
number are such digits and spell it (`value_ofNat`).
-/

namespace MarketFeed

namespace Digit

@[simp] theorem ofOctet?_toOctet (d : Digit) : ofOctet? d.toOctet = some d := by
  decide +revert

@[simp] theorem ofChar?_toChar (d : Digit) : ofChar? d.toChar = some d := by
  decide +revert

theorem toChar_ne_sign (d : Digit) : d.toChar ≠ '-' ∧ d.toChar ≠ '+' := by
  decide +revert

theorem toChar_ne_point (d : Digit) : d.toChar ≠ '.' := by
  decide +revert

theorem toChar_of_ofChar? {c : Char} {d : Digit} (h : ofChar? c = some d) : d.toChar = c := by
  rw [ofChar?] at h
  split at h
  · obtain rfl := Option.some.inj h
    have : 48 + (c.toNat - 48) = c.toNat := by omega
    rw [toChar, this, Char.ofNat_toNat]
  · cases h

theorem toChar_injective : Function.Injective toChar := by
  intro d e h
  apply Option.some.inj
  rw [← ofChar?_toChar d, h, ofChar?_toChar]

theorem toOctet_of_ofOctet? {b : UInt8} {d : Digit} (h : ofOctet? b = some d) : d.toOctet = b := by
  rw [ofOctet?] at h
  split at h
  · obtain rfl := Option.some.inj h
    have : 48 + (b.toNat - 48) = b.toNat := by omega
    rw [toOctet, this, UInt8.ofNat_toNat]
  · cases h

end Digit

namespace Digits

/-- Whether there is a digit, and no zero before others. -/
def isPlain : List Digit → Bool
  | [] => false
  | d :: ds => d != Digit.zero || ds.isEmpty

theorem ne_nil_of_isPlain {ds : List Digit} (h : isPlain ds = true) : ds ≠ [] := by
  rintro rfl
  cases h

/-- The number that digits spell behind those of another number. -/
def valueFrom (n : Nat) (ds : List Digit) : Nat := ds.foldl (fun n d => n * 10 + d.val) n

theorem value_append (ds es : List Digit) : value (ds ++ es) = valueFrom (value ds) es := by
  rw [value, List.foldl_append]
  rfl

theorem valueFrom_cons (n : Nat) (d : Digit) (ds : List Digit) :
    valueFrom n (d :: ds) = valueFrom (n * 10 + d.val) ds := rfl

theorem le_valueFrom (n : Nat) (ds : List Digit) : n ≤ valueFrom n ds := by
  induction ds generalizing n with
  | nil => exact Nat.le_refl n
  | cons d ds ih =>
    rw [valueFrom_cons]
    have := ih (n * 10 + d.val)
    omega

@[simp] theorem value_nil : value [] = 0 := rfl

@[simp] theorem value_concat (ds : List Digit) (d : Digit) :
    value (ds ++ [d]) = value ds * 10 + d.val := by
  simp [value]

theorem value_cons (d : Digit) (ds : List Digit) : value (d :: ds) = valueFrom d.val ds := by
  rw [value, List.foldl_cons, Nat.zero_mul, Nat.zero_add]
  rfl

theorem valueFrom_eq (n : Nat) (ds : List Digit) :
    valueFrom n ds = n * 10 ^ ds.length + value ds := by
  induction ds generalizing n with
  | nil => simp [valueFrom]
  | cons d ds ih =>
    rw [valueFrom_cons, value_cons, ih, ih d.val, List.length_cons, pow_succ]
    ring

theorem value_lt (ds : List Digit) : value ds < 10 ^ ds.length := by
  induction ds using List.reverseRecOn with
  | nil => exact Nat.one_pos
  | append_singleton ds d ih =>
    rw [value_concat, List.length_append, List.length_singleton, pow_succ]
    have := d.isLt
    omega

/-! ### The digits of a number -/

theorem prepend_append (bound n : Nat) (ds : List Digit) :
    prepend bound n ds = prepend bound n [] ++ ds := by
  induction bound generalizing n ds with
  | zero => rfl
  | succ bound ih =>
    rw [prepend, prepend]
    split
    · rfl
    · rw [ih, ih (n / 10) [_], List.append_assoc]
      rfl

/-- The bound does not matter once it exceeds the number. -/
theorem prepend_eq {bound bound' n : Nat} (h : n < bound) (h' : n < bound') (ds : List Digit) :
    prepend bound n ds = prepend bound' n ds := by
  induction bound generalizing bound' n ds with
  | zero => omega
  | succ bound ih =>
    obtain ⟨bound', rfl⟩ := Nat.exists_eq_add_one_of_ne_zero (show bound' ≠ 0 by omega)
    rw [prepend, prepend]
    split
    · rfl
    · exact ih (by omega) (by omega) _

theorem ofNat_small {n : Nat} (h : n < 10) : ofNat n = [Fin.ofNat 10 n] := by
  rw [ofNat, prepend]
  exact if_pos h

theorem ofNat_large {n : Nat} (h : 10 ≤ n) : ofNat n = ofNat (n / 10) ++ [Fin.ofNat 10 n] := by
  have hn : n / 10 < n := by omega
  rw [ofNat, prepend, if_neg (by omega), prepend_append, ofNat, prepend_eq hn (Nat.lt_succ_self _)]

theorem value_pos {d : Digit} (hd : d ≠ Digit.zero) (ds : List Digit) : 0 < value (d :: ds) := by
  induction ds using List.reverseRecOn with
  | nil =>
    rw [show [d] = [] ++ [d] from rfl, value_concat]
    have : d.val ≠ 0 := fun h => hd (Fin.ext h)
    omega
  | append_singleton ds e ih =>
    rw [← List.cons_append, value_concat]
    omega

theorem ofNat_digit (n : Nat) (d : Digit) : Fin.ofNat 10 (n * 10 + d.val) = d :=
  Fin.ext (by
    rw [Fin.val_ofNat]
    omega)

/-- Digits without superfluous zeros are those of the number they spell. -/
theorem ofNat_value {ds : List Digit} (h : isPlain ds = true) : ofNat (value ds) = ds := by
  induction ds using List.reverseRecOn with
  | nil => cases h
  | append_singleton ds d ih =>
    rw [value_concat]
    cases ds with
    | nil => exact (ofNat_small (by simp)).trans (congrArg (fun e => [e]) (ofNat_digit 0 d))
    | cons e es =>
      have he : e ≠ Digit.zero := by simpa [isPlain] using h
      have := value_pos he es
      rw [ofNat_large (by omega), ofNat_digit, show (value (e :: es) * 10 + d.val) / 10
        = value (e :: es) by omega, ih (by simp [isPlain, he])]

theorem isPlain_or_zero (d : Digit) (ds : List Digit) :
    isPlain (d :: ds) = true ∨ d = Digit.zero ∧ ds ≠ [] := by
  by_cases hd : d = Digit.zero
  · cases ds with
    | nil => exact Or.inl (by simp [isPlain])
    | cons e es => exact Or.inr ⟨hd, List.cons_ne_nil e es⟩
  · exact Or.inl (by simp [isPlain, hd])

/-- Digits are those of the number they spell, behind zeros. -/
theorem padded_ofNat_value {ds : List Digit} (h : ds ≠ []) :
    (ofNat (value ds)).length ≤ ds.length ∧
      List.replicate (ds.length - (ofNat (value ds)).length) Digit.zero ++ ofNat (value ds) =
        ds := by
  induction ds with
  | nil => exact absurd rfl h
  | cons d ds ih =>
    obtain hplain | ⟨rfl, hne⟩ := isPlain_or_zero d ds
    · rw [ofNat_value hplain, Nat.sub_self]
      exact ⟨Nat.le_refl _, rfl⟩
    · obtain ⟨hlen, hds⟩ := ih hne
      have hvalue : value (Digit.zero :: ds) = value ds := rfl
      rw [hvalue, List.length_cons]
      refine ⟨by omega, ?_⟩
      rw [Nat.succ_sub hlen, List.replicate_succ, List.cons_append, hds]

/-- The digits of a number spell it. -/
@[simp] theorem value_ofNat (n : Nat) : value (ofNat n) = n := by
  induction n using Nat.strongRecOn with
  | ind n ih =>
    by_cases hn : n < 10
    · rw [ofNat_small hn]
      exact (Nat.zero_add _).trans (Nat.mod_eq_of_lt hn)
    · rw [ofNat_large (by omega), value_concat, ih (n / 10) (by omega), Fin.val_ofNat]
      omega

theorem ofNat_eq_cons {n : Nat} (h : 0 < n) :
    ∃ d ds, ofNat n = d :: ds ∧ d ≠ Digit.zero := by
  induction n using Nat.strongRecOn with
  | ind n ih =>
    by_cases hn : n < 10
    · refine ⟨_, [], ofNat_small hn, fun hzero => ?_⟩
      have hval := congrArg Fin.val hzero
      rw [Fin.val_ofNat, Nat.mod_eq_of_lt hn] at hval
      exact absurd hval (Nat.ne_of_gt h)
    · obtain ⟨d, ds, hds, hd⟩ := ih (n / 10) (by omega) (by omega)
      refine ⟨d, ds ++ [Fin.ofNat 10 n], ?_, hd⟩
      rw [ofNat_large (by omega), hds, List.cons_append]

/-- A number is at least the power of ten that its digits begin with. -/
theorem pow_le_of_ofNat {n : Nat} (h : 0 < n) : 10 ^ ((ofNat n).length - 1) ≤ n := by
  obtain ⟨d, ds, hds, hd⟩ := ofNat_eq_cons h
  have hone : 1 ≤ d.val := Nat.one_le_iff_ne_zero.2 fun h => hd (Fin.ext h)
  have hvalue : n = valueFrom d.val ds := by rw [← value_cons, ← hds, value_ofNat]
  rw [hds, List.length_cons, Nat.add_sub_cancel, hvalue, valueFrom_eq]
  exact le_add_right (Nat.le_mul_of_pos_left _ hone)

theorem length_ofNat_le {n k : Nat} (hpos : 0 < n) (hlt : n < 10 ^ k) : (ofNat n).length ≤ k := by
  have hpow := Nat.lt_of_le_of_lt (pow_le_of_ofNat hpos) hlt
  have := (Nat.pow_lt_pow_iff_right (by decide)).1 hpow
  omega

theorem lt_pow_length_ofNat (n : Nat) : n < 10 ^ (ofNat n).length := by
  have h := value_lt (ofNat n)
  rwa [value_ofNat] at h

theorem ofNat_ne_nil (n : Nat) : ofNat n ≠ [] := by
  by_cases hn : n < 10
  · rw [ofNat_small hn]
    exact List.cons_ne_nil _ _
  · rw [ofNat_large (by omega)]
    exact List.concat_ne_nil _ _

/-- The digits that a number begins with have no superfluous zeros. -/
theorem isPlain_take_ofNat (n : Nat) {k : Nat} (hk : 0 < k) :
    isPlain ((ofNat n).take k) = true := by
  obtain ⟨k, rfl⟩ := Nat.exists_eq_add_one_of_ne_zero (Nat.ne_of_gt hk)
  by_cases hn : n < 10
  · rw [ofNat_small hn, List.take_succ_cons, List.take_nil]
    simp [isPlain]
  · obtain ⟨d, ds, hds, hd⟩ := ofNat_eq_cons (n := n) (by omega)
    rw [hds, List.take_succ_cons]
    simp [isPlain, hd]

theorem isPlain_ofNat (n : Nat) : isPlain (ofNat n) = true := by
  have h := isPlain_take_ofNat n (List.length_pos_iff.2 (ofNat_ne_nil n))
  rwa [List.take_length] at h

theorem value_replicate_append (k : Nat) (ds : List Digit) :
    value (List.replicate k Digit.zero ++ ds) = value ds := by
  induction k with
  | zero => rfl
  | succ k ih => exact ih

theorem chars_replicate_zero (k : Nat) :
    chars (List.replicate k Digit.zero) = List.replicate k '0' := List.map_replicate

theorem chars_append (ds es : List Digit) : chars (ds ++ es) = chars ds ++ chars es :=
  List.map_append

theorem mapM_chars (ds : List Digit) : (chars ds).mapM Digit.ofChar? = some ds := by
  rw [Outcome.optionMapM_eq_some_iff, chars, List.forall₂_map_left_iff]
  exact List.forall₂_same.2 fun d _ => Digit.ofChar?_toChar d

theorem value_append_zeros (ds : List Digit) (k : Nat) :
    value (ds ++ List.replicate k Digit.zero) = value ds * 10 ^ k := by
  have hzero := value_replicate_append k []
  rw [List.append_nil] at hzero
  rw [value_append, valueFrom_eq, hzero, List.length_replicate]
  rfl

end Digits

namespace Text

theorem point_notMem_ofNat (n : Nat) : '.' ∉ (ofNat n).toList := by
  rw [ofNat, String.toList_ofList, Digits.chars, List.mem_map]
  rintro ⟨d, -, hd⟩
  exact d.toChar_ne_point hd

/-- A number that fits into a width is written with as many digits. -/
theorem toList_ofNatPadded {width n : Nat} (hwidth : 0 < width) (hn : n < 10 ^ width) :
    ∃ ds, (ofNatPadded width n).toList = Digits.chars ds ∧ ds.length = width ∧
      Digits.value ds = n := by
  have hlength : (Digits.ofNat n).length ≤ width := by
    rcases Nat.eq_zero_or_pos n with rfl | hpos
    · rw [Digits.ofNat_small (by decide)]
      exact hwidth
    · exact Digits.length_ofNat_le hpos hn
  refine ⟨List.replicate (width - (Digits.ofNat n).length) Digit.zero ++ Digits.ofNat n, ?_, ?_, ?_⟩
  · rw [ofNatPadded, String.toList_ofList, Digits.chars_append, Digits.chars_replicate_zero,
      Digits.chars, List.length_map]
  · rw [List.length_append, List.length_replicate]
    omega
  · rw [Digits.value_replicate_append, Digits.value_ofNat]

theorem ofNat_injective : Function.Injective ofNat := by
  intro m n h
  have hchars := String.ofList_injective h
  have hdigits := (List.map_inj_right fun _ _ hd => Digit.toChar_injective hd).1 hchars
  rw [← Digits.value_ofNat m, hdigits, Digits.value_ofNat]

end Text

end MarketFeed
