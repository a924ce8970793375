import MarketFeed.Proofs.Decimal.Canonical
import MarketFeed.Proofs.Json.Fields
import MarketFeed.Proofs.Json.Raw
import MarketFeed.Proofs.Json.Writing

/-!
# Reading what was written

A codec returns a value (`Codec.Returns`) if it writes a plain tree for it and reads the value back
from that tree.  Then decoding undoes encoding (`Codec.Returns.decode_encode`).  A record is
returned if each of its fields is (`Record.returns`).
-/

namespace MarketFeed

namespace Json

open Node

/-- A value is written as a plain tree, and read back from it by a reader that allows at least the
given number of levels. -/
structure Codec.Returns {α : Type} (codec : Codec α) (depth : Nat) (x : α) : Prop where
  plain : (codec.write x).IsPlain
  read : ∀ levels, depth ≤ levels → codec.read levels (codec.write x) = .ok x

/-- Decoding undoes encoding. -/
theorem Codec.Returns.decode_encode {α : Type} {codec : Codec α} {depth : Nat} {x : α}
    (h : codec.Returns depth x) (hdepth : depth ≤ allLevels) :
    decode codec (octets (encode codec x)) = .ok x := by
  rw [encode, decode_of_spells codec h.plain.spells, h.read allLevels hdepth]

namespace Codec

variable {depth : Nat}

/-! ### Single values -/

theorem returns_flag (b : Bool) : flag.Returns depth b := ⟨isPlain_bool b, fun _ _ => rfl⟩

theorem readText_ofString (expected s : String) : readText expected (ofString s) = .ok s :=
  readText_eq_ok_iff.2 ⟨_, rfl, StringPart.decode?_encode s⟩

theorem returns_text (s : String) : text.Returns depth s :=
  ⟨isPlain_ofString s, fun _ _ => readText_ofString "a string" s⟩

theorem returns_named {α : Type} [BEq α] {ofText : String → α} {toText : α → String}
    (inspect : α → String) {x : α} (h : ofText (toText x) = x) :
    (named ofText toText inspect).Returns depth x := by
  refine ⟨isPlain_ofString _, fun _ _ => ?_⟩
  exact Outcome.map_eq_ok_iff.2 ⟨toText x, readText_ofString _ _, h⟩

theorem returns_choice {α : Type} [BEq α] {table : List (String × α)} {toText : α → String}
    (inspect : α → String) {x : α} (h : table.lookup (toText x) = some x) :
    (choice table toText inspect).Returns depth x := by
  refine ⟨isPlain_ofString _, fun levels _ => ?_⟩
  change readChoice table levels (.string (StringPart.encode (toText x))) = .ok x
  rw [readChoice, Outcome.bind_eq_ok_iff]
  refine ⟨toText x, readText_ofString _ _, ?_⟩
  rw [lookUp, h]

theorem number?_ofNat {n : Nat} (h : n < UInt64.size) :
    (Numeral.ofNat n).number? = some (.natural (UInt64.ofNat n)) := by
  simp [Numeral.number?, Numeral.ofNat, Numeral.isWhole, h]

theorem returns_word (n : UInt64) : word.Returns depth n := by
  refine ⟨isPlain_ofNat _, fun levels _ => ?_⟩
  have hnumber : (Numeral.ofNat n.toNat).number? = some (.natural n) := by
    rw [number?_ofNat n.toNat_lt, UInt64.ofNat_toNat]
  exact Value.bind_ofNode_of_leaf? wordOf (leaf?_number hnumber) levels

theorem returns_octet (n : UInt8) : octet.Returns depth n := by
  refine ⟨isPlain_ofNat _, fun levels _ => ?_⟩
  have hn : n.toNat < UInt8.size := n.toNat_lt
  have hword : n.toNat < UInt64.size := Nat.lt_trans hn (by decide)
  have hread : readNatural UInt8.size "u8" (ofNat n.toNat) = .ok n.toNat := by
    have hnat : (UInt64.ofNat n.toNat).toNat = n.toNat := UInt64.toNat_ofNat_of_lt' hword
    simp only [ofNat, readNatural, number?_ofNat hword, naturalOf, hnat, if_pos hn]
  exact Outcome.map_eq_ok_iff.2 ⟨n.toNat, hread, UInt8.ofNat_toNat⟩

theorem returns_decimal {d : Decimal} (h : ¬d.IsNegativeZero) : decimal.Returns depth d := by
  refine ⟨isPlain_ofString _, fun _ _ => Outcome.bind_eq_ok_iff.2 ?_⟩
  refine ⟨d.text, readText_ofString _ _, ?_⟩
  rw [Decimal.read_text h]

theorem returns_looseDecimal {d : Decimal} (h : ¬d.IsNegativeZero) :
    looseDecimal.Returns depth d := by
  refine ⟨isPlain_ofString _, fun levels _ => ?_⟩
  have hblank : ¬(Text.trim d.text.toList).isEmpty = true := fun hempty =>
    Decimal.trim_text_ne_nil d (List.isEmpty_iff.1 hempty)
  have hread : readDecimalText d.text = .ok d := by rw [readDecimalText, Decimal.read_text h]
  have hleaf : (ofString d.text).leaf? = some (.string d.text) :=
    leaf?_string (StringPart.decode?_encode d.text)
  exact (Value.bind_ofNode_of_leaf? looseDecimalOf hleaf levels).trans ((if_neg hblank).trans hread)

/-! ### Compositions -/

theorem returns_list {α : Type} {codec : Codec α} {xs : List α}
    (h : ∀ x ∈ xs, codec.Returns depth x) : (list codec).Returns (depth + 1) xs := by
  constructor
  · exact isPlain_ofList fun t ht => by
      obtain ⟨x, hx, rfl⟩ := List.mem_map.1 ht
      exact (h x hx).plain
  · rintro (_ | levels) hlevels
    · omega
    · have hvalues : ((xs.map codec.write).map fun v => (⟨[], v, []⟩ : Spaced Node)).mapM
          (fun e => codec.read levels e.value) = .ok xs := by
        rw [Outcome.mapM_eq_ok_iff, List.forall₂_map_left_iff, List.forall₂_map_left_iff,
          List.forall₂_same]
        exact fun x hx => (h x hx).read levels (by omega)
      exact Outcome.bind_eq_ok_iff.2 ⟨xs, hvalues, rfl⟩

theorem returns_optional {α : Type} {codec : Codec α} {x : Option α}
    (hnull : ∀ levels, codec.isNull levels .null = true)
    (h : ∀ y, x = some y → codec.Returns depth y ∧
      ∀ levels, codec.isNull levels (codec.write y) = false) :
    codec.optional.Returns depth x := by
  cases x with
  | none => exact ⟨isPlain_null, fun levels _ => optional_read_eq_none_iff.2 (hnull levels)⟩
  | some y =>
    obtain ⟨hy, hwritten⟩ := h y rfl
    refine ⟨hy.plain, fun levels hlevels => ?_⟩
    exact optional_read_eq_some_iff.2 ⟨hwritten levels, hy.read levels hlevels⟩

end Codec

/-! ### Records -/

/-- The value of a field is returned, and stands in for itself where it is left out. -/
structure Field.Returns (f : Field) (depth : Nat) (x : f.Carrier) : Prop where
  codec : f.codec.Returns depth x
  omitted : f.isOmitted x = true → f.absence.object? = some x

/-- The values of all fields are returned. -/
def Values.Return (depth : Nat) : (fields : List Field) → Values fields → Prop
  | [], () => True
  | f :: fields, (x, xs) => f.Returns depth x ∧ Return depth fields xs

section

variable {depth : Nat} {label key : String} {α : Type} {codec : Codec α} {x : α}

theorem Codec.Returns.required (h : codec.Returns depth x) :
    (Field.required label key codec).Returns depth x := ⟨h, nofun⟩

theorem Codec.Returns.withDefault {value : α} (h : codec.Returns depth x) :
    (Field.withDefault label key codec value).Returns depth x := ⟨h, nofun⟩

end

theorem areWritten_members {depth : Nat} {fields : List Field} {xs : Values fields}
    (h : Values.Return depth fields xs) : AreWritten (xs.members fields) := by
  induction fields with
  | nil => exact List.forall_mem_nil _
  | cons f fields ih =>
    obtain ⟨x, xs⟩ := xs
    obtain ⟨hx, hxs⟩ := h
    rw [Values.members]
    split
    · exact ih hxs
    · exact List.forall_mem_cons.2 ⟨⟨_, _, rfl, hx.codec.plain⟩, ih hxs⟩

theorem isNamed_member (keys : List String) (key : String) (t : Node) :
    (member key t).isNamed keys = keys.contains key :=
  Entry.isNamed_of_decode? (StringPart.decode?_encode key) keys

/-- The members for values have keys of their fields. -/
theorem isNamed_of_mem_members {fields : List Field} {xs : Values fields} {m : Entry Node}
    (hm : m ∈ xs.members fields) : m.isNamed (fields.flatMap Field.keys) = true := by
  induction fields with
  | nil => cases hm
  | cons f fields ih =>
    obtain ⟨x, xs⟩ := xs
    rw [List.flatMap_cons, Entry.isNamed_append, Bool.or_eq_true]
    rw [Values.members] at hm
    split at hm
    · exact Or.inr (ih hm)
    · obtain rfl | hm := List.mem_cons.1 hm
      · refine Or.inl ?_
        rw [isNamed_member, List.contains_iff_mem]
        exact List.mem_cons_self
      · exact Or.inr (ih hm)

theorem valuesNamed_eq_nil {keys : List String} {ms : List (Entry Node)}
    (h : ∀ m ∈ ms, m.isNamed keys = false) : valuesNamed keys ms = [] := by
  rw [valuesNamed, List.filter_eq_nil_iff.2 fun m hm => by simp [h m hm], List.map_nil]

/-- The values of fields are read back from their members. -/
theorem ofMembers_members {depth : Nat} {fields : List Field}
    (hkeys : (fields.flatMap Field.keys).Nodup) {xs : Values fields}
    (h : Values.Return depth fields xs) {levels : Nat} (hlevels : depth ≤ levels) :
    Values.ofMembers levels fields (xs.members fields) (.closed []) = .ok xs := by
  induction fields with
  | nil => rfl
  | cons f fields ih =>
    obtain ⟨x, xs⟩ := xs
    obtain ⟨hx, hxs⟩ := h
    rw [List.flatMap_cons, List.nodup_append] at hkeys
    obtain ⟨_, hfields, hdisjoint⟩ := hkeys
    -- The later fields have none of the keys of this one, so their members are left alone.
    have hothers : ∀ m ∈ xs.members fields, m.isNamed f.keys = false := fun m hm =>
      Entry.not_isNamed (fun key hf hkey => hdisjoint key hf key hkey rfl)
        (isNamed_of_mem_members hm)
    have hrest : (xs.members fields).filter (fun m => !m.isNamed f.keys) = xs.members fields :=
      List.filter_eq_self.2 fun m hm => by simp [hothers m hm]
    rw [ofMembers_cons_iff, Values.members]
    split
    · next homitted =>
      rw [valuesNamed_eq_nil hothers, hrest]
      exact ⟨Or.inl ⟨rfl, hx.omitted homitted⟩, ih hfields hxs⟩
    · have hnamed : (member f.key (f.codec.write x)).isNamed f.keys = true := by
        rw [isNamed_member, List.contains_iff_mem]
        exact List.mem_cons_self
      rw [valuesNamed_cons_pos hnamed, valuesNamed_eq_nil hothers,
        List.filter_cons_of_neg (by simp [hnamed]), hrest]
      exact ⟨Or.inr ⟨_, rfl, hx.codec.read levels hlevels⟩, ih hfields hxs⟩

/-- A record is returned if the values of its fields are. -/
theorem Record.returns {α : Type} {record : Record α}
    (hkeys : (record.fields.flatMap Field.keys).Nodup) {depth : Nat} {a : α}
    (ha : record.ofValues (record.toValues a) = a)
    (h : Values.Return depth record.fields (record.toValues a)) :
    record.codec.Returns (depth + 1) a := by
  refine ⟨isPlain_ofMembers (areWritten_members h), ?_⟩
  rintro (_ | levels) hlevels
  · omega
  · exact Outcome.map_eq_ok_iff.2 ⟨_, ofMembers_members hkeys h (by omega), ha⟩

end Json

end MarketFeed
