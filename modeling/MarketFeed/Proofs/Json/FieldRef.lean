import MarketFeed.Proofs.Json.Place
import MarketFeed.Proofs.Json.Returning
import MarketFeed.Proofs.Json.Rows

/-!
# One field of a record

A `FieldRef` points at a field in a list of fields, and reads and overwrites its value among the
values of them all.  A record that is read from a tree has as the value of a field what is read at
the place of the field, and another value there changes nothing but that (`Record.read_fill`).
-/

namespace MarketFeed

namespace Json

open Node

/-- A field in a list of fields. -/
inductive FieldRef : List Field → Field → Type 1 where
  | here {f : Field} {fields : List Field} : FieldRef (f :: fields) f
  | there {f g : Field} {fields : List Field} (ref : FieldRef fields f) : FieldRef (g :: fields) f

namespace FieldRef

variable {f : Field} {fields : List Field}

/-- The position of the field. -/
def index : {fields : List Field} → FieldRef fields f → Nat
  | _, here => 0
  | _, there ref => ref.index + 1

/-- The value of the field. -/
def get : {fields : List Field} → FieldRef fields f → Values fields → f.Carrier
  | _, here, (x, _) => x
  | _, there ref, (_, xs) => ref.get xs

/-- The values with another one for the field. -/
def set : {fields : List Field} → FieldRef fields f → f.Carrier → Values fields → Values fields
  | _, here, y, (_, xs) => (y, xs)
  | _, there ref, y, (x, xs) => (x, ref.set y xs)

theorem set_get (ref : FieldRef fields f) (xs : Values fields) : ref.set (ref.get xs) xs = xs := by
  induction ref with
  | here => rfl
  | there ref ih => exact congrArg (Prod.mk xs.1) (ih xs.2)

theorem mem (ref : FieldRef fields f) : f ∈ fields := by
  induction ref with
  | here => exact List.mem_cons_self
  | there ref ih => exact List.mem_cons_of_mem _ ih

theorem exists_of_getElem? {i : Nat} (h : fields[i]? = some f) :
    ∃ ref : FieldRef fields f, ref.index = i := by
  induction fields generalizing i with
  | nil => simp at h
  | cons g fields ih =>
    cases i with
    | zero =>
      obtain rfl : g = f := by simpa using h
      exact ⟨here, rfl⟩
    | succ i =>
      obtain ⟨ref, hindex⟩ := ih (by simpa using h)
      exact ⟨there ref, congrArg (· + 1) hindex⟩

/-- No key of the field is one of another field. -/
theorem disjoint_keys (ref : FieldRef fields f) {g : Field}
    (hkeys : ((g :: fields).flatMap Field.keys).Nodup) : List.Disjoint f.keys g.keys := by
  rw [List.flatMap_cons, List.nodup_append] at hkeys
  intro key hf hg
  exact hkeys.2.2 key hg key (List.mem_flatMap.2 ⟨f, ref.mem, hf⟩) rfl

theorem nodup_tail {g : Field} (hkeys : ((g :: fields).flatMap Field.keys).Nodup) :
    (fields.flatMap Field.keys).Nodup := by
  rw [List.flatMap_cons, List.nodup_append] at hkeys
  exact hkeys.2.1

theorem isNamed_fields (ref : FieldRef fields f) {m : Entry Node} (hm : m.isNamed f.keys = true) :
    m.isNamed (fields.flatMap Field.keys) = true := by
  have hsub : f.keys ⊆ fields.flatMap Field.keys :=
    fun key hkey => List.mem_flatMap.2 ⟨f, ref.mem, hkey⟩
  by_contra hnot
  rw [Entry.isNamed_of_subset hsub (Bool.eq_false_iff.2 hnot)] at hm
  cases hm

/-! ### Objects -/

theorem holds_get {levels : Nat} {t : Node} (ref : FieldRef fields f) {position : Nat}
    {xs : Values fields} (h : Values.Hold levels t fields position xs) :
    f.Holds levels (t.fieldValues f.keys (position + ref.index)) (ref.get xs) := by
  induction ref generalizing position with
  | here => exact h.1
  | there ref ih =>
    have htail := ih h.2
    rwa [Nat.add_assoc, Nat.add_comm 1] at htail

theorem valuesNamed_around {keys : List String} {m m' : Entry Node} (h : m.isNamed keys = false)
    (h' : m'.isNamed keys = false) (before after : List (Entry Node)) :
    valuesNamed keys (before ++ m :: after) = valuesNamed keys (before ++ m' :: after) := by
  rw [valuesNamed_append, valuesNamed_append, valuesNamed_cons_neg h, valuesNamed_cons_neg h']

/-- Where a member of the field has another value, so has the field, and no other field. -/
theorem hold_set {levels : Nat} {before after : List (Entry Node)} {m m' : Entry Node}
    {ending : Ending} (hkeys : (fields.flatMap Field.keys).Nodup) (ref : FieldRef fields f)
    (hnamed : m.isNamed f.keys = true) (hnamed' : m'.isNamed f.keys = true)
    {y : f.Carrier} (hy : f.Holds levels (valuesNamed f.keys (before ++ m' :: after)) y)
    {position : Nat} {xs : Values fields}
    (h : Values.Hold levels (object (before ++ m :: after) ending) fields position xs) :
    Values.Hold levels (object (before ++ m' :: after) ending) fields position (ref.set y xs) := by
  have hother {g : Field} (hdisjoint : g.keys.Disjoint f.keys) :
      valuesNamed g.keys (before ++ m :: after) = valuesNamed g.keys (before ++ m' :: after) :=
    valuesNamed_around (Entry.not_isNamed hdisjoint hnamed) (Entry.not_isNamed hdisjoint hnamed')
      before after
  induction ref generalizing position with
  | here =>
    refine ⟨hy, (hold_congr fun g hg _ => ?_).1 h.2⟩
    obtain ⟨i, hi⟩ := List.getElem?_of_mem hg
    obtain ⟨ref, _⟩ := exists_of_getElem? hi
    exact hother (ref.disjoint_keys hkeys)
  | there ref ih =>
    obtain ⟨hx, hxs⟩ := h
    refine ⟨?_, ih (nodup_tail hkeys) hnamed hnamed' hy hxs @hother⟩
    change Field.Holds levels _ (valuesNamed _ (before ++ m' :: after)) xs.1
    rw [← hother fun _ hg hf => ref.disjoint_keys hkeys hf hg]
    exact hx

/-- Among the members for values is the one of the field. -/
theorem valuesNamed_members (ref : FieldRef fields f)
    (hkeys : (fields.flatMap Field.keys).Nodup) {xs : Values fields}
    (homitted : f.isOmitted (ref.get xs) = false) :
    valuesNamed f.keys (xs.members fields) = [f.codec.write (ref.get xs)] := by
  induction ref with
  | @here f fields =>
    obtain ⟨x, xs⟩ := xs
    have hnamed : (member f.key (f.codec.write x)).isNamed f.keys = true := by
      rw [isNamed_member, List.contains_iff_mem]
      exact List.mem_cons_self
    have hothers : ∀ m ∈ xs.members fields, m.isNamed f.keys = false := by
      rw [List.flatMap_cons, List.nodup_append] at hkeys
      exact fun m hm => Entry.not_isNamed (fun key hf hkey => hkeys.2.2 key hf key hkey rfl)
        (isNamed_of_mem_members hm)
    have hkept : ¬f.isOmitted x = true := Bool.eq_false_iff.1 homitted
    rw [Values.members, if_neg hkept, valuesNamed_cons_pos hnamed, valuesNamed_eq_nil hothers]
    rfl
  | @there f g fields ref ih =>
    obtain ⟨x, xs⟩ := xs
    have htail := ih (nodup_tail hkeys) homitted
    have hnamed : (member g.key (g.codec.write x)).isNamed f.keys = false := by
      rw [isNamed_member, Bool.eq_false_iff]
      exact fun hkey => ref.disjoint_keys hkeys (List.contains_iff_mem.1 hkey) List.mem_cons_self
    rw [Values.members]
    split
    · exact htail
    · rw [valuesNamed_cons_neg hnamed]
      exact htail

/-! ### Arrays -/

theorem row_get {levels : Nat} (ref : FieldRef fields f) {before after : List Node} {v : Node}
    (hlength : before.length = ref.index) {xs : Values fields}
    (h : Values.Row levels fields (before ++ v :: after) xs) :
    f.codec.read levels v = .ok (ref.get xs) := by
  induction ref generalizing before with
  | here =>
    obtain rfl := List.length_eq_zero_iff.1 hlength
    exact h.1
  | there ref ih =>
    obtain ⟨t, before, rfl⟩ := List.exists_of_length_succ before hlength
    exact ih (Nat.succ.inj hlength) h.2

theorem row_set {levels : Nat} (ref : FieldRef fields f) {before after : List Node} {v w : Node}
    (hlength : before.length = ref.index) {y : f.Carrier} (hy : f.codec.read levels w = .ok y)
    {xs : Values fields} (h : Values.Row levels fields (before ++ v :: after) xs) :
    Values.Row levels fields (before ++ w :: after) (ref.set y xs) := by
  induction ref generalizing before with
  | here =>
    obtain rfl := List.length_eq_zero_iff.1 hlength
    exact ⟨hy, h.2⟩
  | there ref ih =>
    obtain ⟨t, before, rfl⟩ := List.exists_of_length_succ before hlength
    exact ⟨h.1, ih (Nat.succ.inj hlength) hy h.2⟩

end FieldRef

/-! ### Records -/

/-- What there is for a field is read. -/
theorem Field.Holds.read_of_mem {levels : Nat} {f : Field} {vs : List Node} {x : f.Carrier}
    (h : f.Holds levels vs x) {v : Node} (hv : v ∈ vs) : f.codec.read levels v = .ok x := by
  obtain ⟨rfl, _⟩ | ⟨w, rfl, hread⟩ := h
  · cases hv
  · obtain rfl := List.mem_singleton.1 hv
    exact hread

/-- A member with a value that a field holds is the only one of the field. -/
theorem Field.Holds.only {levels : Nat} {f : Field} {before after : List (Entry Node)}
    {m : Entry Node} (hnamed : m.isNamed f.keys = true) {x : f.Carrier}
    (h : f.Holds levels (valuesNamed f.keys (before ++ m :: after)) x) :
    f.codec.read levels m.value = .ok x ∧ ∀ m' : Entry Node, m'.isNamed f.keys = true →
      valuesNamed f.keys (before ++ m' :: after) = [m'.value] := by
  simp only [valuesNamed_append, valuesNamed_cons_pos hnamed] at h
  obtain ⟨hnil, _⟩ | ⟨v, hv, hread⟩ := h
  · simp at hnil
  · obtain ⟨hbefore, hone⟩ | ⟨_, hnil⟩ := List.append_eq_singleton_iff.1 hv
    · obtain ⟨rfl, hafter⟩ := List.cons_eq_cons.1 hone
      refine ⟨hread, fun m' hm' => ?_⟩
      rw [valuesNamed_append, valuesNamed_cons_pos hm', hbefore, hafter, List.nil_append]
    · cases hnil

/-- A record that is read from a tree has for a field what is read at the place of the field; with
another value at that place, from which another value is read, it has that instead. -/
theorem Record.read_fill {α : Type} {record : Record α}
    (hkeys : (record.fields.flatMap Field.keys).Nodup) {f : Field}
    (ref : FieldRef record.fields f) {place : Place} (hplace : place.IsAt (.field f.keys ref.index))
    {levels : Nat} {v : Node} {a : α} (h : record.read (levels + 1) (place.fill v) = .ok a) :
    ∃ xs, record.ofValues xs = a ∧ f.codec.read levels v = .ok (ref.get xs) ∧
      ∀ w y, f.codec.read levels w = .ok y →
        record.read (levels + 1) (place.fill w) = .ok (record.ofValues (ref.set y xs)) := by
  cases place with
  | element before left right after ending =>
    obtain ⟨xs, hxs, ha⟩ := Outcome.map_eq_ok_iff.1 h
    obtain ⟨hending, hrow⟩ := ofElements_eq_ok_iff.1 hxs
    rw [List.map_append, List.map_cons] at hrow
    have hlength : (before.map (·.value)).length = ref.index := by rwa [List.length_map]
    refine ⟨xs, ha, ref.row_get hlength hrow, fun w y hy => ?_⟩
    refine Outcome.map_eq_ok_iff.2 ⟨_, ofElements_eq_ok_iff.2 ⟨hending, ?_⟩, rfl⟩
    rw [List.map_append, List.map_cons]
    exact ref.row_set hlength hy hrow
  | member before left key colon right after ending =>
    have hnamed (u : Node) := Place.isNamed_of_isAt hplace u
    obtain ⟨hending, hms, xs, hxs, ha⟩ := (Record.read_object_iff hkeys).1 h
    obtain ⟨hread, honly⟩ := Field.Holds.only (hnamed v) (ref.holds_get hxs)
    refine ⟨xs, ha, hread, fun w y hy => ?_⟩
    refine (Record.read_object_iff hkeys).2 ⟨hending, ?_, _, ?_, rfl⟩
    · simp only [List.forall_mem_append, List.forall_mem_cons] at hms ⊢
      exact ⟨hms.1, Or.inl (ref.isNamed_fields (hnamed w)), hms.2.2⟩
    · exact ref.hold_set hkeys (hnamed v) (hnamed w)
        (Or.inr ⟨w, honly _ (hnamed w), hy⟩) hxs

end Json

end MarketFeed
