import Mathlib.Logic.Relation
import MarketFeed.Proofs.Json.Blanks
import MarketFeed.Proofs.Json.Tame
import MarketFeed.Proofs.Json.Writing

/-!
# Layout

A `Shape` says which objects of a tree are records.  A tree is laid out differently (`Relaid`) if it
has other blanks, if the members of a record come in another order, or if a record has a further
member that is of none of its fields.  Codecs that go by content only (`Codec.Respects`) read what
is laid out differently as the same value.
-/

namespace MarketFeed

namespace Json

open Node

/-- Which objects of a tree are records: none, those among the elements of an array, or the tree
itself, with fields of the given keys and values of the given shapes. -/
inductive Shape where
  | plain
  | list (element : Shape)
  | record (keys : List String) (inner : String → Shape)

/-- A member of no field that may stand in a text: its key is a text but not one of those given, and
its value is tame. -/
structure Entry.IsForeign (levels : Nat) (keys : List String) (m : Entry Node) : Prop where
  isMember : IsMember m
  isText : Utf8.IsText (memberText m)
  key : ∃ key, StringPart.decode? m.key = some key ∧ key ∉ keys
  value : m.value.isTame levels = true

/-- A member that is written is of no field if its key is none of those given. -/
theorem isForeign_member {levels : Nat} {keys : List String} {key : String} {t : Node}
    (h : t.IsPlain) (hkey : key ∉ keys) (htame : t.isTame levels = true) :
    (member key t).IsForeign levels keys where
  isMember := (isMember_member h).1
  isText := (isMember_member h).2
  key := ⟨key, StringPart.decode?_encode key, hkey⟩
  value := htame

/-- The second tree is the first one with one change of its layout.  Both have the given shape and
may have the given number of levels. -/
inductive Relaid : Shape → Nat → Node → Node → Prop
  | blanks {shape : Shape} {levels : Nat} {t t' : Node} (h : t.bare = t'.bare) :
    Relaid shape levels t t'
  | order {keys : List String} {inner : String → Shape} {levels : Nat} {ms ms' : List (Entry Node)}
    {ending : Ending} (h : ms.Perm ms') :
    Relaid (.record keys inner) (levels + 1) (object ms ending) (object ms' ending)
  | insertion {keys : List String} {inner : String → Shape} {levels : Nat}
    {before after : List (Entry Node)} {m : Entry Node} {ending : Ending}
    (h : m.IsForeign levels keys) :
    Relaid (.record keys inner) (levels + 1) (object (before ++ after) ending)
      (object (before ++ m :: after) ending)
  | member {keys : List String} {inner : String → Shape} {levels : Nat}
    {before after : List (Entry Node)} {m : Entry Node} {ending : Ending} {key : String} {v : Node}
    (hkey : StringPart.decode? m.key = some key) (hkeys : key ∈ keys)
    (h : Relaid (inner key) levels m.value v) :
    Relaid (.record keys inner) (levels + 1) (object (before ++ m :: after) ending)
      (object (before ++ { m with value := v } :: after) ending)
  | position {keys : List String} {inner : String → Shape} {levels : Nat}
    {before after : List (Spaced Node)} {e : Spaced Node} {ending : Ending} {key : String}
    {v : Node} (hkey : keys[before.length]? = some key) (h : Relaid (inner key) levels e.value v) :
    Relaid (.record keys inner) (levels + 1) (array (before ++ e :: after) ending)
      (array (before ++ { e with value := v } :: after) ending)
  | element {shape : Shape} {levels : Nat} {before after : List (Spaced Node)} {e : Spaced Node}
    {ending : Ending} {v : Node} (h : Relaid shape levels e.value v) :
    Relaid (.list shape) (levels + 1) (array (before ++ e :: after) ending)
      (array (before ++ { e with value := v } :: after) ending)

/-- A codec reads the same from trees whose layout differs in one place. -/
def Codec.Respects {α : Type} (codec : Codec α) (shape : Shape) : Prop :=
  ∀ levels t t', Relaid shape levels t t' →
    ∀ x, codec.read levels t = .ok x ↔ codec.read levels t' = .ok x

/-- A codec that goes by content reads the same from trees that differ in their layout only. -/
theorem Codec.Respects.read_iff {α : Type} {codec : Codec α} {shape : Shape}
    (h : codec.Respects shape) {levels : Nat} {t t' : Node}
    (ht : Relation.EqvGen (Relaid shape levels) t t') (x : α) :
    codec.read levels t = .ok x ↔ codec.read levels t' = .ok x := by
  induction ht with
  | rel _ _ hstep => exact h _ _ _ hstep x
  | refl _ => exact Iff.rfl
  | symm _ _ _ ih => exact ih.symm
  | trans _ _ _ _ _ ih ih' => exact ih.trans ih'

/-! ### Single values and lists -/

theorem Codec.IgnoresBlanks.read_eq {α : Type} {codec : Codec α} (h : codec.IgnoresBlanks)
    {t t' : Node} (ht : t.bare = t'.bare) (levels : Nat) :
    codec.read levels t = codec.read levels t' := by
  rw [← h levels t, ht, h levels t']

theorem Codec.IgnoresBlanks.respects {α : Type} {codec : Codec α} (h : codec.IgnoresBlanks) :
    codec.Respects .plain := by
  rintro levels t t' ⟨ht⟩ x
  rw [h.read_eq ht]

theorem bare_of_relaid_plain {levels : Nat} {t t' : Node} (h : Relaid .plain levels t t') :
    t.bare = t'.bare := by
  cases h with
  | blanks h => exact h

theorem forall₂_replace {α β : Type} {r : α → β → Prop} {x x' : α} (h : ∀ y, r x y ↔ r x' y)
    {before after : List α} {ys : List β} :
    List.Forall₂ r (before ++ x :: after) ys ↔ List.Forall₂ r (before ++ x' :: after) ys := by
  induction before generalizing ys with
  | nil => simp [List.forall₂_cons_left_iff, h]
  | cons b before ih => simp [List.forall₂_cons_left_iff, ih]

theorem Codec.list_read_iff {α : Type} {codec : Codec α} {levels : Nat} {es : List (Spaced Node)}
    {ending : Ending} {xs : List α} :
    (list codec).read (levels + 1) (array es ending) = .ok xs ↔
      List.Forall₂ (fun e x => codec.read levels e.value = .ok x) es xs ∧
        ending.isClosed = true := by
  rw [← Outcome.mapM_eq_ok_iff, ← Ending.check_eq_ok_iff (u := ())]
  refine Outcome.bind_eq_ok_iff.trans ?_
  constructor
  · rintro ⟨ys, hys, h⟩
    obtain ⟨_, hending, h⟩ := Outcome.bind_eq_ok_iff.1 h
    obtain rfl := Except.ok.inj h
    exact ⟨hys, hending⟩
  · rintro ⟨hxs, hending⟩
    exact ⟨xs, hxs, Outcome.bind_eq_ok_iff.2 ⟨(), hending, rfl⟩⟩

theorem Codec.respects_list {α : Type} {codec : Codec α} {shape : Shape}
    (hblanks : codec.IgnoresBlanks) (h : codec.Respects shape) :
    (list codec).Respects (.list shape) := by
  intro levels t t' ht xs
  cases ht with
  | blanks ht => rw [(ignoresBlanks_list hblanks).read_eq ht]
  | @element _ levels before after e ending v he =>
    rw [list_read_iff, list_read_iff]
    exact and_congr_left fun _ => forall₂_replace (h _ _ _ he)

/-! ### Records -/

theorem holds_perm {levels : Nat} {f : Field} {vs vs' : List Node} (h : vs.Perm vs')
    {x : f.Carrier} : f.Holds levels vs x ↔ f.Holds levels vs' x := by
  have hnil : vs = [] ↔ vs' = [] :=
    ⟨fun hvs => (hvs ▸ h).nil_eq.symm, fun hvs => (hvs ▸ h).eq_nil⟩
  have hone (v : Node) : vs = [v] ↔ vs' = [v] :=
    ⟨fun hvs => List.perm_singleton.1 (hvs ▸ h).symm, fun hvs => List.perm_singleton.1 (hvs ▸ h)⟩
  simp only [Field.Holds, hnil, hone]

theorem holds_replace {levels : Nat} {f : Field} {before after : List Node} {v v' : Node}
    (h : ∀ x, f.codec.read levels v = .ok x ↔ f.codec.read levels v' = .ok x) {x : f.Carrier} :
    f.Holds levels (before ++ v :: after) x ↔ f.Holds levels (before ++ v' :: after) x := by
  cases before with
  | nil => cases after <;> simp [Field.Holds, h]
  | cons w before => simp [Field.Holds]

theorem hold_object_congr {levels : Nat} {ms ms' : List (Entry Node)} {ending : Ending}
    {fields : List Field} {position : Nat} {xs : Values fields}
    (h : ∀ f ∈ fields, ∀ x, f.Holds levels (valuesNamed f.keys ms) x ↔
      f.Holds levels (valuesNamed f.keys ms') x) :
    Values.Hold levels (object ms ending) fields position xs ↔
      Values.Hold levels (object ms' ending) fields position xs := by
  induction fields generalizing position with
  | nil => exact Iff.rfl
  | cons f fields ih =>
    obtain ⟨x, xs⟩ := xs
    obtain ⟨hf, hfields⟩ := List.forall_mem_cons.1 h
    exact and_congr (hf x) (ih hfields)

theorem valuesNamed_perm {keys : List String} {ms ms' : List (Entry Node)} (h : ms.Perm ms') :
    (valuesNamed keys ms).Perm (valuesNamed keys ms') :=
  (h.filter _).map _

theorem Entry.IsForeign.isNamed {levels : Nat} {keys : List String} {m : Entry Node}
    (h : m.IsForeign levels keys) {keys' : List String} (hkeys : keys' ⊆ keys) :
    m.isNamed keys' = false := by
  obtain ⟨key, hkey, hnot⟩ := h.key
  rw [Entry.isNamed_of_decode? hkey, Bool.eq_false_iff]
  exact fun hcontains => hnot (hkeys (List.contains_iff_mem.1 hcontains))

/-- A member of no field can be kept. -/
theorem Entry.IsForeign.isKept {levels : Nat} {keys : List String} {m : Entry Node}
    (h : m.IsForeign levels keys) : m.IsKept levels := by
  obtain ⟨key, hkey, _⟩ := h.key
  refine Entry.isKept_iff.2 ⟨by rw [hkey]; rfl, ?_⟩
  exact kept_of_isTame h.isText h.isMember.value (infix_value m) h.value

theorem valuesNamed_insert {keys : List String} {m : Entry Node} (h : m.isNamed keys = false)
    (before after : List (Entry Node)) :
    valuesNamed keys (before ++ m :: after) = valuesNamed keys (before ++ after) := by
  rw [valuesNamed_append, valuesNamed_cons_neg h, valuesNamed_append]

/-- The member of another value has the same key. -/
theorem isNamed_replace (keys : List String) (m : Entry Node) (v : Node) :
    Entry.isNamed keys { m with value := v } = m.isNamed keys := rfl

theorem ofElements_replace {levels : Nat} {tooShort : Nat → Fault} {ending : Ending}
    {fields : List Field} {before after : List (Spaced Node)} {e e' : Spaced Node} {f : Field}
    (hf : fields[before.length]? = some f)
    (h : ∀ x, f.codec.read levels e.value = .ok x ↔ f.codec.read levels e'.value = .ok x)
    {position : Nat} {xs : Values fields} :
    Values.ofElements levels tooShort ending fields position (before ++ e :: after) = .ok xs ↔
      Values.ofElements levels tooShort ending fields position (before ++ e' :: after) =
        .ok xs := by
  induction before generalizing fields position with
  | nil =>
    cases fields with
    | nil => cases hf
    | cons g fields =>
      obtain rfl := Option.some.inj hf
      refine Outcome.bind_eq_ok_iff.trans (Iff.trans ?_ Outcome.bind_eq_ok_iff.symm)
      exact exists_congr fun x => and_congr_left fun _ => h x
  | cons b before ih =>
    cases fields with
    | nil => cases hf
    | cons g fields =>
      refine Outcome.bind_eq_ok_iff.trans (Iff.trans ?_ Outcome.bind_eq_ok_iff.symm)
      refine exists_congr fun x => and_congr_right fun _ => ?_
      refine Outcome.bind_eq_ok_iff.trans (Iff.trans ?_ Outcome.bind_eq_ok_iff.symm)
      exact exists_congr fun ys => and_congr_left fun _ => ih hf

section

variable {α : Type} {record : Record α} (hkeys : (record.fields.flatMap Field.keys).Nodup)

include hkeys

/-- An object is read as a record alike if its members of no field are passed over alike, and the
values for each field are. -/
theorem Record.read_object_congr {levels : Nat} {ms ms' : List (Entry Node)} {ending : Ending}
    (hms : (∀ m ∈ ms, m.isNamed (record.fields.flatMap Field.keys) = true ∨
        m.isIgnorable = true) ↔
      ∀ m ∈ ms', m.isNamed (record.fields.flatMap Field.keys) = true ∨ m.isIgnorable = true)
    (hholds : ∀ f ∈ record.fields, ∀ x, f.Holds levels (valuesNamed f.keys ms) x ↔
      f.Holds levels (valuesNamed f.keys ms') x) {a : α} :
    record.read (levels + 1) (object ms ending) = .ok a ↔
      record.read (levels + 1) (object ms' ending) = .ok a := by
  rw [Record.read_object_iff hkeys, Record.read_object_iff hkeys, hms]
  simp only [hold_object_congr hholds]

/-- A record goes by the content of an object if its fields go by the content of their values. -/
theorem Record.respects {inner : String → Shape}
    (halias : ∀ f ∈ record.fields, f.alias? = none)
    (hblanks : ∀ f ∈ record.fields, f.codec.IgnoresBlanks)
    (hinner : ∀ f ∈ record.fields, f.codec.Respects (inner f.key)) :
    record.codec.Respects (.record (record.fields.map Field.key) inner) := by
  have hfieldKeys : ∀ f ∈ record.fields, f.keys = [f.key] := fun f hf => by
    rw [Field.keys, halias f hf]
    rfl
  intro levels t t' ht a
  cases ht with
  | blanks ht => rw [(Record.ignoresBlanks hblanks).read_eq ht]
  | order hms =>
    refine Record.read_object_congr hkeys ?_ fun f _ x => holds_perm (valuesNamed_perm hms)
    exact forall_congr' fun m => imp_congr_left hms.mem_iff
  | @insertion _ _ levels before after m ending hm =>
    have hpassed := Or.inr (a := m.isNamed (record.fields.flatMap Field.keys) = true)
      hm.isKept.isIgnorable
    refine Record.read_object_congr hkeys ?_ fun f hf x => ?_
    · simp only [List.forall_mem_append, List.forall_mem_cons, hpassed, true_and]
    · have hsub : f.keys ⊆ record.fields.map Field.key := by
        intro key hkey
        rw [hfieldKeys f hf, List.mem_singleton] at hkey
        exact hkey ▸ List.mem_map_of_mem hf
      rw [valuesNamed_insert (hm.isNamed hsub)]
  | @member _ _ levels before after m ending key v hkey hmem h =>
    obtain ⟨g, hg, rfl⟩ := List.mem_map.1 hmem
    have hnamed : m.isNamed (record.fields.flatMap Field.keys) = true := by
      rw [Entry.isNamed_of_decode? hkey, List.contains_iff_mem]
      exact List.mem_flatMap.2 ⟨g, hg, List.mem_cons_self⟩
    refine Record.read_object_congr hkeys ?_ fun f hf x => ?_
    · simp only [List.forall_mem_append, List.forall_mem_cons, isNamed_replace, hnamed, true_or,
        true_and]
    · rw [valuesNamed_append, valuesNamed_append]
      cases hm : m.isNamed f.keys with
      | false => rw [valuesNamed_cons_neg hm, valuesNamed_cons_neg (m := { m with value := v }) hm]
      | true =>
        rw [valuesNamed_cons_pos hm, valuesNamed_cons_pos (m := { m with value := v }) hm]
        have hfg : g.key = f.key := by
          rw [Entry.isNamed_of_decode? hkey, hfieldKeys f hf, List.contains_iff_mem] at hm
          exact List.mem_singleton.1 hm
        exact holds_replace (hinner f hf _ _ _ (hfg ▸ h))
  | @position _ _ levels before after e ending key v hkey h =>
    rw [List.getElem?_map] at hkey
    obtain ⟨f, hf, rfl⟩ := Option.map_eq_some_iff.1 hkey
    have hread := hinner f (List.mem_of_getElem? hf) _ _ _ h
    refine Outcome.map_eq_ok_iff.trans (Iff.trans ?_ Outcome.map_eq_ok_iff.symm)
    exact exists_congr fun xs => and_congr_left fun _ =>
      ofElements_replace hf hread

end

/-! ### Codecs that go by content -/

/-- A codec reads nothing from a broken tree, and the same from trees that differ in their blanks
or, where records are as the shape says, in their layout. -/
structure Codec.GoesByContent {α : Type} (codec : Codec α) (shape : Shape) : Prop where
  sound : codec.ReadsSound
  blanks : codec.IgnoresBlanks
  respects : codec.Respects shape

namespace Codec

theorem goesByContent_plain {α : Type} {codec : Codec α} (hsound : codec.ReadsSound)
    (hblanks : codec.IgnoresBlanks) : codec.GoesByContent .plain :=
  ⟨hsound, hblanks, hblanks.respects⟩

theorem goesByContent_text : text.GoesByContent .plain :=
  goesByContent_plain readsSound_text ignoresBlanks_text

theorem goesByContent_flag : flag.GoesByContent .plain :=
  goesByContent_plain readsSound_flag ignoresBlanks_flag

theorem goesByContent_word : word.GoesByContent .plain :=
  goesByContent_plain readsSound_word ignoresBlanks_word

theorem goesByContent_decimal : decimal.GoesByContent .plain :=
  goesByContent_plain readsSound_decimal ignoresBlanks_decimal

theorem goesByContent_looseDecimal : looseDecimal.GoesByContent .plain :=
  goesByContent_plain readsSound_looseDecimal ignoresBlanks_looseDecimal

theorem GoesByContent.list {α : Type} {codec : Codec α} {shape : Shape}
    (h : codec.GoesByContent shape) : (Codec.list codec).GoesByContent (.list shape) :=
  ⟨readsSound_list h.sound, ignoresBlanks_list h.blanks, respects_list h.blanks h.respects⟩

/-- What is read alike with other blanks only is of no shape in particular. -/
theorem GoesByContent.plain {α : Type} {codec : Codec α} {shape : Shape}
    (h : codec.GoesByContent shape) : codec.GoesByContent .plain :=
  goesByContent_plain h.sound h.blanks

end Codec

theorem Record.goesByContent {α : Type} {record : Record α} {inner : String → Shape}
    (hkeys : (record.fields.flatMap Field.keys).Nodup)
    (halias : ∀ f ∈ record.fields, f.alias? = none)
    (h : ∀ f ∈ record.fields, f.codec.GoesByContent (inner f.key)) :
    record.codec.GoesByContent (.record (record.fields.map Field.key) inner) where
  sound := Record.readsSound record fun f hf => (h f hf).sound
  blanks := Record.ignoresBlanks fun f hf => (h f hf).blanks
  respects := Record.respects hkeys halias (fun f hf => (h f hf).blanks)
    fun f hf => (h f hf).respects

/-! ### Texts -/

/-- Two texts have the same content: their trees differ in their layout only, or neither is a text
of the grammar. -/
inductive SameContent (shape : Shape) (text text' : String) : Prop
  | relaid {t t' : Node} (ht : Spells (octets text) t) (ht' : Spells (octets text') t')
    (h : Relation.EqvGen (Relaid shape allLevels) t t')
  | ungrammatical (h : ∀ t, ¬Spells (octets text) t) (h' : ∀ t, ¬Spells (octets text') t)

/-- A codec that goes by content decodes the same from texts of the same content. -/
theorem Codec.GoesByContent.decode_iff {α : Type} {codec : Codec α} {shape : Shape}
    (h : codec.GoesByContent shape) {text text' : String} (hsame : SameContent shape text text')
    (x : α) : decode codec (octets text) = .ok x ↔ decode codec (octets text') = .ok x := by
  cases hsame with
  | relaid ht ht' hrelaid =>
    rw [decode_of_spells codec ht, decode_of_spells codec ht', h.respects.read_iff hrelaid]
  | ungrammatical hno hno' =>
    rw [decode_eq_ok_iff h.sound, decode_eq_ok_iff h.sound]
    constructor
    · rintro ⟨t, ht, _⟩
      exact absurd ht (hno t)
    · rintro ⟨t, ht, _⟩
      exact absurd ht (hno' t)

end Json

end MarketFeed
