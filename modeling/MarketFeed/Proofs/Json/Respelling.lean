import MarketFeed.Proofs.Json.FieldRef
import MarketFeed.Proofs.Json.Integer
import MarketFeed.Proofs.Json.Layout
import MarketFeed.Proofs.Json.Writing

/-!
# Integers spelled otherwise

Two trees that mean the same integer of 64 bits are read alike wherever an integer is expected
(`Codec.ReadsAlike`): alone, as an element of a list or as a field of a record, however deep.  What
means an integer is a text (`Node.MeansNat.isText`), so a tree of the grammar whose octets are one
stays so.
-/

namespace MarketFeed

namespace Json

open Node

namespace StringPart

theorem isText_code {a b c d : UInt8} (h : (code a b c d).isSpelled = true) :
    Utf8.IsText (code a b c d).octets := by
  simp only [isSpelled, List.all_cons, Bool.and_eq_true] at h
  obtain ⟨ha, hb, hc, hd, _⟩ := h
  refine Utf8.isText_of_ascii ?_
  simp only [octets, List.forall_mem_cons]
  exact ⟨by decide, by decide, toNat_lt_of_hexValue? ha, toNat_lt_of_hexValue? hb,
    toNat_lt_of_hexValue? hc, toNat_lt_of_hexValue? hd, List.forall_mem_nil _⟩

/-- The parts of a string are a text if what they mean is one. -/
theorem isText_of_meaning {body : List StringPart} (hspelled : body.all isSpelled = true)
    {s : List UInt8} (hs : meaningOf? body = some s) {pre : List UInt8}
    (htext : Utf8.IsText (pre ++ s)) : Utf8.IsText (pre ++ body.flatMap octets) := by
  fun_induction meaningOf? body generalizing s pre with
  | case1 =>
    cases hs
    exact htext
  | case2 b body ih =>
    obtain ⟨t, ht, rfl⟩ := Option.map_eq_some_iff.1 hs
    rw [List.all_cons, Bool.and_eq_true] at hspelled
    rw [List.flatMap_cons, octets, ← List.append_assoc]
    refine ih hspelled.2 ht ?_
    rwa [List.append_assoc]
  | case3 b body ih =>
    obtain ⟨c, hc, hs⟩ := Option.bind_eq_some_iff.1 hs
    obtain ⟨t, ht, hs⟩ := Option.bind_eq_some_iff.1 hs
    cases hs
    rw [List.all_cons, Bool.and_eq_true] at hspelled
    obtain ⟨hb, hc⟩ := toNat_lt_of_meaning? hc
    obtain ⟨hpre, hrest⟩ := Utf8.isText_cut hc htext
    exact hpre.append ((isText_letter hb).append (@ih hspelled.2 t ht [] hrest))
  | case4 a b c d n hhigh a' b' c' d' body n' hlow =>
    rename_i ih
    obtain ⟨t, ht, rfl⟩ := Option.map_eq_some_iff.1 hs
    simp only [List.all_cons, Bool.and_eq_true] at hspelled
    obtain ⟨hfirst, hsecond, hspelled⟩ := hspelled
    obtain ⟨hpre, hrest⟩ := Utf8.isText_cut_char htext
    have hbody := @ih hspelled t ht [] hrest
    exact hpre.append ((isText_code hfirst).append ((isText_code hsecond).append hbody))
  | case8 a b c d body n hhigh hlow ih =>
    obtain ⟨t, ht, rfl⟩ := Option.map_eq_some_iff.1 hs
    rw [List.all_cons, Bool.and_eq_true] at hspelled
    obtain ⟨hpre, hrest⟩ := Utf8.isText_cut_char htext
    exact hpre.append ((isText_code hspelled.1).append (@ih hspelled.2 t ht [] hrest))
  | _ => cases hs

/-- The octets of a string that stands for a text are a text. -/
theorem isText_of_decode? {body : List StringPart} (hspelled : body.all isSpelled = true)
    {s : String} (h : decode? body = some s) : Utf8.IsText (text body) := by
  obtain ⟨meaning, hmeaning, h⟩ := Option.bind_eq_some_iff.1 h
  obtain ⟨cs, hcs, _⟩ := Option.bind_eq_some_iff.1 h
  have hbody : Utf8.IsText (body.flatMap octets) :=
    @isText_of_meaning body hspelled meaning hmeaning [] ⟨cs, Utf8.encode_of_decode? hcs⟩
  have hquote : Utf8.IsText [Octet.quote] := Utf8.isText_octet (by decide)
  exact hquote.append (hbody.append hquote)

end StringPart

namespace Node

/-- The octets of a tree that denotes a number are a text. -/
theorem DenotesNat.isText {t : Node} {n : Nat} (ht : t.isGrammatical = true)
    (h : t.DenotesNat n) : Utf8.IsText t.text := by
  cases t with
  | number numeral =>
    obtain ⟨ds, rfl, _⟩ := h
    refine Utf8.isText_of_ascii fun b hb => ?_
    simp only [text, Numeral.text, Numeral.digitOctets, Bool.false_eq_true, if_false,
      List.nil_append, List.append_nil, List.mem_map] at hb
    obtain ⟨d, _, rfl⟩ := hb
    exact toNat_toOctet d
  | string body =>
    obtain ⟨s, hs, _⟩ := h
    exact StringPart.isText_of_decode? (Bool.and_eq_true_iff.1 ht).1 hs
  | _ => cases h

theorem isText_gap {gap : Gap} (h : gap.isBlank = true) : Utf8.IsText gap := by
  refine Utf8.isText_of_ascii fun b hb => ?_
  have hblank := List.all_eq_true.1 h b hb
  simp only [Octet.isBlank, Bool.or_eq_true, beq_iff_eq] at hblank
  obtain ((rfl | rfl) | rfl) | rfl := hblank <;> decide

/-- The octets of a tree that wraps a text are a text. -/
theorem Wraps.isText {t : Node} {s : String} (ht : t.isGrammatical = true) (h : t.Wraps s) :
    Utf8.IsText t.text := by
  cases h with
  | @intro key body _ before after gap colon hkey hbody =>
    obtain ⟨hms, gap', hending, hgap, _⟩ := (isGrammatical_object _ _).1 ht
    cases hending
    obtain ⟨hbefore, hkeySpelled, ⟨left, right, hcolon, hleft, hright⟩, hvalue, hafter⟩ :=
      hms _ List.mem_cons_self
    cases hcolon
    have hkeyText := StringPart.isText_of_decode? hkeySpelled hkey
    have hbodyText := StringPart.isText_of_decode? (Bool.and_eq_true_iff.1 hvalue).1 hbody
    have htext :
        (object [⟨before, key, some (left, right), string body, after⟩] (.closed gap)).text =
        [Octet.openBrace] ++ (before ++ (StringPart.text key ++ (left ++ ([Octet.colon] ++ (right ++
          (StringPart.text body ++ (after ++ (gap ++ [Octet.closeBrace])))))))) := by
      simp [text, membersText, memberText, Ending.text]
    rw [htext]
    exact (Utf8.isText_octet (by decide)).append <| (isText_gap hbefore).append <|
      hkeyText.append <| (isText_gap hleft).append <| (Utf8.isText_octet (by decide)).append <|
      (isText_gap hright).append <| hbodyText.append <| (isText_gap hafter).append <|
      (isText_gap hgap).append <| Utf8.isText_octet (by decide)

/-- The octets of a tree that means a number are a text. -/
theorem MeansNat.isText {levels : Nat} {t : Node} {n : Nat} (ht : t.isGrammatical = true)
    (h : t.MeansNat levels n) : Utf8.IsText t.text := by
  obtain ⟨u, hu, hn⟩ := h
  cases hu with
  | self => exact hn.isText ht
  | wrapped hwraps => exact hwraps.isText ht

/-- Two trees mean the same integer of 64 bits. -/
def SameInteger (v w : Node) : Prop :=
  ∃ n : UInt64, v.MeansNat allLevels n.toNat ∧ w.MeansNat allLevels n.toNat

theorem SameInteger.ne_null {v w : Node} (h : SameInteger v w) : v ≠ null ∧ w ≠ null := by
  obtain ⟨n, hv, hw⟩ := h
  have hself : null.StandsFor allLevels null := (standsFor_iff null_not_wraps).2 rfl
  constructor <;> rintro rfl
  · exact hv.not_standsFor_null hself
  · exact hw.not_standsFor_null hself

end Node

/-! ### Reading alike -/

namespace Codec

variable {α : Type} {codec : Codec α} {path : List Step} {r : Node → Node → Prop}

/-- Whatever is read from a tree with the one of two related values at the end of a path is read
from the tree with the other, if a level is left there. -/
def ReadsAlike (codec : Codec α) (path : List Step) (r : Node → Node → Prop) : Prop :=
  ∀ levels, path.length < levels → ∀ places v w, List.Forall₂ Place.IsAt places path → r v w →
    ∀ x, codec.read levels (Place.fillAll places v) = .ok x ↔
      codec.read levels (Place.fillAll places w) = .ok x

theorem readsAlike_word : word.ReadsAlike [] SameInteger := by
  rintro (_ | levels) hlevels places v w (_ | _) ⟨n, hv, hw⟩ x
  · exact absurd hlevels (Nat.lt_irrefl 0)
  · have hone {t : Node} (ht : t.MeansNat allLevels n.toNat) :
        word.read (levels + 1) t = .ok x ↔ x = n := by
      rw [word_read_iff]
      constructor
      · intro hx
        exact UInt64.toNat_inj.1 (hx.unique ht)
      · rintro rfl
        exact ht.succ levels
    exact (hone hv).trans (hone hw).symm

theorem not_isNull_of_meansNat {levels levels' : Nat} {t : Node} {n : Nat}
    (h : t.MeansNat levels n) : word.isNull levels' t = false := by
  rw [← Bool.not_eq_true, word_isNull_iff, Value.ofNode_eq_null_iff]
  exact h.not_standsFor_null

theorem readsAlike_optional
    (hnull : ∀ levels v w, r v w → codec.isNull levels v = false ∧ codec.isNull levels w = false)
    (h : codec.ReadsAlike [] r) : codec.optional.ReadsAlike [] r := by
  rintro levels hlevels places v w (_ | _) hr x
  obtain ⟨hv, hw⟩ := hnull levels v w hr
  have hread := h levels hlevels [] v w .nil hr
  change codec.optional.read levels v = .ok x ↔ codec.optional.read levels w = .ok x
  rw [optional_read_of_not_isNull hv, optional_read_of_not_isNull hw]
  exact Outcome.map_congr_ok hread _ _

theorem readsAlike_list (h : codec.ReadsAlike path r) :
    (list codec).ReadsAlike (.element :: path) r := by
  rintro (_ | levels) hlevels places v w hplaces hr xs
  · exact absurd hlevels (Nat.not_lt_zero _)
  obtain ⟨place, places, hplace, htail, rfl⟩ := List.forall₂_cons_right_iff.1 hplaces
  cases place with
  | member before left key colon right after ending => cases hplace
  | element before left right after ending =>
    rw [Place.fillAll_cons, Place.fillAll_cons, Place.fill, Place.fill, list_read_iff,
      list_read_iff]
    have hvalue := h levels (Nat.lt_of_succ_lt_succ hlevels) places v w htail hr
    exact and_congr_left fun _ => forall₂_replace hvalue

/-- A field is read alike if what is read from its place is all that matters there. -/
theorem readsAlike_field {f : Field} {i : Nat}
    (hfield : ∀ place, Place.IsAt place (.field f.keys i) → ∀ levels v w,
      (∀ y, f.codec.read levels v = .ok y → f.codec.read levels w = .ok y) →
      ∀ x, codec.read (levels + 1) (place.fill v) = .ok x →
        codec.read (levels + 1) (place.fill w) = .ok x)
    (h : f.codec.ReadsAlike path r) : codec.ReadsAlike (.field f.keys i :: path) r := by
  rintro (_ | levels) hlevels places v w hplaces hr x
  · exact absurd hlevels (Nat.not_lt_zero _)
  obtain ⟨place, places, hplace, htail, rfl⟩ := List.forall₂_cons_right_iff.1 hplaces
  have hvalue := h levels (Nat.lt_of_succ_lt_succ hlevels) places v w htail hr
  constructor
  · exact hfield place hplace levels _ _ (fun y => (hvalue y).1) x
  · exact hfield place hplace levels _ _ (fun y => (hvalue y).2) x

theorem readsAlike_record {record : Record α} (hkeys : (record.fields.flatMap Field.keys).Nodup)
    {i : Nat} {f : Field} (hf : record.fields[i]? = some f) (h : f.codec.ReadsAlike path r) :
    record.codec.ReadsAlike (.field f.keys i :: path) r := by
  refine readsAlike_field (fun place hplace levels v w hvw x hread => ?_) h
  obtain ⟨ref, rfl⟩ := FieldRef.exists_of_getElem? hf
  obtain ⟨xs, rfl, hvalue, hfill⟩ := Record.read_fill hkeys ref hplace hread
  have hsame := hfill w _ (hvw _ hvalue)
  rwa [ref.set_get] at hsame

theorem readsAlike_integer {record : Record α} (hkeys : (record.fields.flatMap Field.keys).Nodup)
    {i : Nat} {label key : String} (hf : record.fields[i]? = some (.required label key word)) :
    record.codec.ReadsAlike [.field [key] i] SameInteger :=
  readsAlike_record hkeys hf readsAlike_word

end Codec

end Json

end MarketFeed
