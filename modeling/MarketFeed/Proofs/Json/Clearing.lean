import MarketFeed.Proofs.Json.Inline
import MarketFeed.Proofs.Json.Raw
import MarketFeed.Proofs.Json.View
import MarketFeed.Proofs.Text.Blank

/-!
# Blank amounts

An amount that is null, a blank text or a zero is read as zero, and any other text as a strict
decimal is (`Codec.looseDecimal_read_iff`).  In members that have been cleared under some keys
(`Clears`), an amount with one of the keys is zero (`holds_cleared`), and a field with none of them
is as it was (`holds_kept`).
-/

namespace MarketFeed

theorem Text.trim_isEmpty_iff {cs : List Char} : (trim cs).isEmpty = true ↔ AreBlank cs := by
  rw [List.isEmpty_iff, trim_eq_iff (List.forall_mem_nil _)]
  constructor
  · rintro ⟨before, after, rfl, hbefore, hafter⟩
    exact List.forall_mem_append.2 ⟨hbefore, hafter⟩
  · exact fun h => ⟨[], cs, rfl, List.forall_mem_nil _, h⟩

/-- An amount, or zero if its key is one of the given ones. -/
def Decimal.clearedAt (keys : List String) (key : String) (d : Decimal) : Decimal :=
  if key ∈ keys then zero else d

namespace Json

open Node

namespace Node

/-- A value that leaves an amount open: null, a blank text or a zero. -/
def IsOpenAmount (v : Node) : Prop :=
  v = null ∨ ∃ s, v.string? = some s ∧ (Text.AreBlank s.toList ∨ s = "0")

/-- A value that is no amount: a truth value, a list, an object, or a text that is neither blank nor
a decimal. -/
def IsNoAmount : Node → Prop
  | bool _ | array .. | object .. => True
  | string body => ∀ s, StringPart.decode? body = some s →
    ¬Text.AreBlank s.toList ∧ ∀ d, Decimal.read s ≠ .ok d
  | _ => False

/-- What a tree stands for is no amount. -/
def MeansNoAmount (v : Node) : Prop := ∀ levels u, v.StandsFor levels u → u.IsNoAmount

/-- A tree that is no amount means none, unless it wraps a text. -/
theorem IsNoAmount.means {v : Node} (h : v.IsNoAmount) (hwraps : ∀ s, ¬v.Wraps s) :
    v.MeansNoAmount := by
  intro levels u hu
  rwa [(standsFor_iff hwraps).1 hu]

end Node

namespace Codec

variable {levels : Nat} {body : List StringPart} {s : String}

theorem looseDecimal_read_string (h : StringPart.decode? body = some s) :
    looseDecimal.read levels (string body) =
      if (Text.trim s.toList).isEmpty then .ok Decimal.zero else readDecimalText s :=
  Value.bind_ofNode_of_leaf? looseDecimalOf (leaf?_string h) levels

theorem readDecimalText_eq_ok_iff {d : Decimal} :
    readDecimalText s = .ok d ↔ Decimal.read s = .ok d := by
  unfold readDecimalText
  cases Decimal.read s <;> simp

theorem looseDecimal_read_text (h : StringPart.decode? body = some s)
    (hblank : ¬Text.AreBlank s.toList) {d : Decimal} :
    looseDecimal.read levels (string body) = .ok d ↔ Decimal.read s = .ok d := by
  rw [looseDecimal_read_string h, if_neg fun hempty => hblank (Text.trim_isEmpty_iff.1 hempty),
    readDecimalText_eq_ok_iff]

/-- From a text that is not blank an amount is read as a strict decimal is. -/
theorem looseDecimal_read_iff (h : StringPart.decode? body = some s)
    (hblank : ¬Text.AreBlank s.toList) {d : Decimal} :
    looseDecimal.read levels (string body) = .ok d ↔ decimal.read levels (string body) = .ok d := by
  have hstring : (string body).string? = some s := h
  rw [looseDecimal_read_text h hblank, decimal_read_iff]
  simp [hstring]

/-- An amount that is left open is zero. -/
theorem looseDecimal_read_open {v : Node} (h : v.IsOpenAmount) :
    looseDecimal.read levels v = .ok Decimal.zero := by
  obtain rfl | ⟨s, hstring, hopen⟩ := h
  · rfl
  · obtain ⟨body, rfl, hs⟩ := exists_of_string? hstring
    rw [looseDecimal_read_string hs]
    split_ifs with hempty
    · rfl
    · obtain hblank | rfl := hopen
      · exact absurd (Text.trim_isEmpty_iff.2 hblank) hempty
      · rfl

theorem isLeaf_of_looseDecimalOf {v : Value} {d : Decimal} (h : looseDecimalOf v = .ok d) :
    v.isLeaf = true := by
  cases v with
  | array | object => cases h
  | _ => rfl

/-- From what means no amount nothing is read. -/
theorem looseDecimal_read_ne {v : Node} (h : v.MeansNoAmount) (d : Decimal) :
    looseDecimal.read levels v ≠ .ok d := by
  intro hread
  obtain ⟨u, hu, x, hx, hd⟩ :=
    (Value.bind_ofNode_iff fun _ _ h => isLeaf_of_looseDecimalOf h).1 hread
  have hno := h levels u hu
  cases u with
  | null | number => cases hno
  | bool =>
    cases hx
    cases hd
  | string body =>
    obtain ⟨s, hs, rfl⟩ := Option.map_eq_some_iff.1 hx
    obtain ⟨hblank, hstrict⟩ := hno s hs
    rw [looseDecimalOf, if_neg fun hempty => hblank (Text.trim_isEmpty_iff.1 hempty)] at hd
    exact hstrict d (readDecimalText_eq_ok_iff.1 hd)
  | array | object | broken => cases hx

/-- An amount is read from an object that wraps a text as it is from the tree that the text
spells. -/
theorem looseDecimal_read_wraps {v : Node} (h : v.Wraps s) {d : Decimal} :
    looseDecimal.read (levels + 1) v = .ok d ↔
      ∃ u, Spells (octets s) u ∧ looseDecimal.read allLevels u = .ok d :=
  Value.bind_ofNode_wraps_iff looseDecimalOf h levels

end Codec

/-! ### Members -/

/-- Members differ from others in that those with the given keys are gone, or leave an amount
open. -/
structure Clears (keys : List String) (ms ms' : List (Entry Node)) : Prop where
  others : (ms'.filter fun m => !m.isNamed keys) = ms.filter fun m => !m.isNamed keys
  cleared : ∀ key ∈ keys, valuesNamed [key] ms' = [] ∨
    ∃ v, valuesNamed [key] ms' = [v] ∧ v.IsOpenAmount

variable {levels : Nat} {keys : List String} {ms ms' : List (Entry Node)}

/-- A field with none of the keys is as it was. -/
theorem holds_kept (h : Clears keys ms ms') {f : Field} (hkeys : keys.Disjoint f.keys)
    {x : f.Carrier} (hx : f.Holds levels (valuesNamed f.keys ms) x) :
    f.Holds levels (valuesNamed f.keys ms') x := by
  rwa [← valuesNamed_filter hkeys, h.others, valuesNamed_filter hkeys]

/-- An amount with one of the keys is zero, and any other as it was. -/
theorem holds_cleared (h : Clears keys ms ms') {label key : String} {d : Decimal}
    (hd : (Field.amount label key).Holds levels (valuesNamed [key] ms) d) :
    (Field.amount label key).Holds levels (valuesNamed [key] ms') (d.clearedAt keys key) := by
  by_cases hkey : key ∈ keys
  · have hzero : d.clearedAt keys key = Decimal.zero := if_pos hkey
    obtain hnone | ⟨v, hv, hopen⟩ := h.cleared key hkey
    · exact Or.inl ⟨hnone, congrArg some hzero.symm⟩
    · exact Or.inr ⟨v, hv, hzero.symm ▸ Codec.looseDecimal_read_open hopen⟩
  · have hsame : d.clearedAt keys key = d := if_neg hkey
    have hdisjoint : keys.Disjoint (Field.amount label key).keys := by
      intro k hk hkey'
      obtain rfl : k = key := List.mem_singleton.1 hkey'
      exact hkey hk
    exact hsame.symm ▸ holds_kept h hdisjoint hd

/-- A member with none of the keys was there before. -/
theorem Clears.mem (h : Clears keys ms ms') {m : Entry Node} (hm : m ∈ ms')
    (hnamed : m.isNamed keys = false) : m ∈ ms := by
  have hkept : m ∈ ms'.filter fun m => !m.isNamed keys := List.mem_filter.2 ⟨hm, by simp [hnamed]⟩
  rw [h.others] at hkept
  exact List.mem_of_mem_filter hkept

end Json

end MarketFeed
