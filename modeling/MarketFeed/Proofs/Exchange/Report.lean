import MarketFeed.Proofs.Exchange.Frame
import MarketFeed.Proofs.Exchange.Push
import MarketFeed.Proofs.Json.FieldRef
import MarketFeed.Proofs.Json.Tame
import MarketFeed.Proofs.Json.Writing

/-!
# Order reports

An order report is read exactly if one member is its category, all members of no field can be kept,
and the fields of the order hold (`OrderReport.read_object_iff`).  So a text that decodes as a
report decodes as its order, and one that decodes as an order and has a category decodes as a
report, unless something in the members of no field cannot be kept (`OrderReport.decode_agrees`).
-/

namespace MarketFeed

open Json Json.Node

namespace Order

theorem agrees_fields : ∀ f ∈ inline.fields, f.codec.Agrees := by
  simp [inline, InlineField.required, InlineField.amount, InlineField.withDefault,
    Side.inlineCodec, OrderType.inlineCodec, OrderStatus.inlineCodec, TimeInForce.inlineCodec]

end Order

namespace OrderReport

/-- The category as a field of a report. -/
def categoryField : Field := .required "category" categoryKey Category.codec

/-- The members that are kept for the order. -/
def others (ms : List (Entry Node)) : List (Entry Node) :=
  ms.filter fun m => !m.isNamed categoryField.keys

/-! ### Sifting -/

theorem contains_categoryKey (key : String) :
    categoryField.keys.contains key = true ↔ key = categoryKey := by
  rw [List.contains_iff_mem]
  exact List.mem_singleton

theorem sift_cons {levels : Nat} {m : Entry Node} {key : String}
    (hkey : StringPart.decode? m.key = some key) (ms : List (Entry Node))
    (found : Option Category) :
    sift levels found (m :: ms) =
      if key = categoryKey then
        if found.isSome then .error (.duplicateField categoryKey)
        else Category.codec.read levels m.value >>= fun c => sift levels (some c) ms
      else
        match Buffered.ofNode? levels m.value with
        | none => .error .grammar
        | some value =>
          sift levels found ms >>= fun (found, kept) => .ok (found, (key, value) :: kept) := by
  have hread : Codec.readText "a string" (.string m.key) = .ok key :=
    Codec.readText_eq_ok_iff.2 ⟨m.key, rfl, hkey⟩
  rw [sift, hread]
  rfl

theorem sift_category {levels : Nat} {m : Entry Node} (hm : m.isNamed categoryField.keys = true)
    (ms : List (Entry Node)) (found : Option Category)
    {result : Option Category × List (String × Buffered)} :
    sift levels found (m :: ms) = .ok result ↔
      found = none ∧ ∃ c, Category.codec.read levels m.value = .ok c ∧
        sift levels (some c) ms = .ok result := by
  cases hkey : StringPart.decode? m.key with
  | none => simp [Entry.isNamed, hkey] at hm
  | some key =>
    rw [Entry.isNamed_of_decode? hkey, contains_categoryKey] at hm
    rw [sift_cons hkey, if_pos hm]
    cases found with
    | some c =>
      constructor
      · intro h
        cases h
      · rintro ⟨h, _⟩
        cases h
    | none =>
      rw [if_neg (by simp), Outcome.bind_eq_ok_iff]
      simp

theorem sift_other {levels : Nat} {m : Entry Node} (hm : m.isNamed categoryField.keys = false)
    (ms : List (Entry Node)) (found found' : Option Category)
    {kept : List (String × Buffered)} :
    sift levels found (m :: ms) = .ok (found', kept) ↔
      ∃ keep kept', m.kept? levels = some keep ∧
        sift levels found ms = .ok (found', kept') ∧ kept = keep :: kept' := by
  cases hkey : StringPart.decode? m.key with
  | none =>
    have hread : Codec.readText "a string" (.string m.key) = .error .grammar := by
      simp [Codec.readText, hkey]
    have hkept : m.kept? levels = none := by simp [Entry.kept?, hkey]
    rw [sift, hread, hkept]
    constructor
    · intro h
      cases h
    · rintro ⟨_, _, h, _⟩
      cases h
  | some key =>
    have hne : key ≠ categoryKey := by
      intro h
      rw [Entry.isNamed_of_decode? hkey, (contains_categoryKey key).2 h] at hm
      cases hm
    rw [sift_cons hkey, if_neg hne]
    cases hvalue : Buffered.ofNode? levels m.value with
    | none =>
      have hkept : m.kept? levels = none := by simp [Entry.kept?, hkey, hvalue]
      rw [hkept]
      constructor
      · intro h
        cases h
      · rintro ⟨_, _, h, _⟩
        cases h
    | some b =>
      have hkept : m.kept? levels = some (key, b) := kept?_eq_some_iff.2 ⟨hkey, hvalue⟩
      rw [hkept]
      dsimp only
      rw [Outcome.bind_eq_ok_iff]
      constructor
      · rintro ⟨⟨found₁, kept'⟩, hsift, h⟩
        cases h
        exact ⟨_, kept', rfl, hsift, rfl⟩
      · rintro ⟨keep, kept', hkeep, hsift, rfl⟩
        obtain rfl := Option.some.inj hkeep
        exact ⟨_, hsift, rfl⟩

theorem fills_category_cons_iff {levels : Nat} {v : Node} {vs : List Node}
    {found found' : Option Category} :
    categoryField.Fills levels found (v :: vs) found' ↔
      found = none ∧ ∃ c, Category.codec.read levels v = .ok c ∧
        categoryField.Fills levels (some c) vs found' :=
  fills_cons_iff (f := categoryField)

/-- Sifting finds the value of the category among the members and keeps the others. -/
theorem sift_iff {levels : Nat} {ms : List (Entry Node)} {found found' : Option Category}
    {kept : List (String × Buffered)} :
    sift levels found ms = .ok (found', kept) ↔
      categoryField.Fills levels found (valuesNamed categoryField.keys ms) found' ∧
        (others ms).mapM (Entry.kept? levels) = some kept := by
  -- The category that has been found goes on to the next member: the statement is for any of them.
  induction ms generalizing found kept with
  | nil =>
    constructor
    · intro h
      cases h
      exact ⟨rfl, rfl⟩
    · rintro ⟨rfl, h⟩
      cases h
      rfl
  | cons m ms ih =>
    cases hm : m.isNamed categoryField.keys with
    | true =>
      have hothers : others (m :: ms) = others ms := List.filter_cons_of_neg (by simp [hm])
      rw [sift_category hm, valuesNamed_cons_pos hm, fills_category_cons_iff, hothers]
      constructor
      · rintro ⟨hfound, c, hc, hsift⟩
        obtain ⟨hfills, hkept⟩ := ih.1 hsift
        exact ⟨⟨hfound, c, hc, hfills⟩, hkept⟩
      · rintro ⟨⟨hfound, c, hc, hfills⟩, hkept⟩
        exact ⟨hfound, c, hc, ih.2 ⟨hfills, hkept⟩⟩
    | false =>
      have hothers : others (m :: ms) = m :: others ms := List.filter_cons_of_pos (by simp [hm])
      rw [sift_other hm, valuesNamed_cons_neg hm, hothers, Outcome.optionMapM_eq_some_iff,
        List.forall₂_cons_left_iff]
      simp only [ih, Outcome.optionMapM_eq_some_iff]
      constructor
      · rintro ⟨keep, kept', hkeep, ⟨hfills, hkept⟩, rfl⟩
        exact ⟨hfills, keep, kept', hkeep, hkept, rfl⟩
      · rintro ⟨hfills, keep, kept', hkeep, hkept, rfl⟩
        exact ⟨keep, kept', hkeep, ⟨hfills, hkept⟩, rfl⟩

/-! ### Reading -/

theorem read_sifted_iff {levels : Nat} {ms : List (Entry Node)} {ending : Ending}
    {r : OrderReport} :
    read (levels + 1) (object ms ending) = .ok r ↔ ending.isClosed = true ∧
      ∃ kept, sift levels none ms = .ok (some r.category, kept) ∧
        Order.inline.replay kept = .ok r.order := by
  rw [read, Outcome.bind_eq_ok_iff]
  constructor
  · rintro ⟨⟨found, kept⟩, hsift, h⟩
    obtain ⟨u, hending, h⟩ := Outcome.bind_eq_ok_iff.1 h
    cases found with
    | none => cases h
    | some category =>
      obtain ⟨order, horder, h⟩ := Outcome.bind_eq_ok_iff.1 h
      obtain rfl := Except.ok.inj h
      exact ⟨Ending.check_eq_ok_iff.1 hending, kept, hsift, horder⟩
  · rintro ⟨hending, kept, hsift, horder⟩
    refine ⟨(some r.category, kept), hsift, Outcome.bind_eq_ok_iff.2 ?_⟩
    exact ⟨(), Ending.check_eq_ok_iff.2 hending, Outcome.bind_eq_ok_iff.2 ⟨r.order, horder, rfl⟩⟩

theorem fills_required_iff {levels : Nat} {vs : List Node} {c : Category} :
    categoryField.Fills levels none vs (some c) ↔ categoryField.Holds levels vs c := by
  refine Iff.trans ?_ (holds_iff (f := categoryField)).symm
  constructor
  · intro h
    exact ⟨some c, h, rfl⟩
  · rintro ⟨slot, h, hslot⟩
    cases slot with
    | none => cases hslot
    | some c' =>
      obtain rfl := Option.some.inj hslot
      exact h

/-- The category is no field of the order. -/
theorem disjoint_keys : categoryField.keys.Disjoint (Order.record.fields.flatMap Field.keys) := by
  intro key hcategory hkey
  rw [List.mem_singleton.1 hcategory] at hkey
  revert hkey
  decide

/-- The members of the order in a report are those that are not its category. -/
theorem hold_others_iff {levels : Nat} {ms : List (Entry Node)} {ending : Ending}
    {xs : Values (Order.inline.fields.map InlineField.field)} :
    Values.Hold levels (object (others ms) ending)
        (Order.inline.fields.map InlineField.field) 0 xs ↔
      Values.Hold levels (object ms ending) (Order.inline.fields.map InlineField.field) 0 xs := by
  refine hold_congr fun f hf _ => valuesNamed_filter (fun key hcategory hkey => ?_) ms
  exact disjoint_keys hcategory (List.mem_flatMap.2 ⟨f, hf, hkey⟩)

/-- A report is read from an object exactly if the ending is there, the members of no field can be
kept, the category is there, and each field of the order holds. -/
theorem read_object_iff {levels : Nat} {ms : List (Entry Node)} {ending : Ending}
    {r : OrderReport} :
    read (levels + 1) (object ms ending) = .ok r ↔ ending.isClosed = true ∧
      (∀ m ∈ others ms, m.IsKept levels) ∧
      categoryField.Holds levels (valuesNamed categoryField.keys ms) r.category ∧
      Values.Hold levels (object ms ending) Order.record.fields 0
        (Order.record.toValues r.order) := by
  have horder {kept : List (String × Buffered)}
      (hkept : (others ms).mapM (Entry.kept? levels) = some kept) :
      Order.inline.replay kept = .ok r.order ↔
        Values.Hold levels (object ms ending) Order.record.fields 0
          (Order.record.toValues r.order) := by
    rw [InlineRecord.replay_eq_ok_iff Order.agrees_fields Order.nodup_keys hkept ending]
    constructor
    · rintro ⟨xs, hxs, hr⟩
      rw [← hr]
      exact hold_others_iff.1 hxs
    · intro h
      exact ⟨_, hold_others_iff.2 h, rfl⟩
  rw [read_sifted_iff]
  constructor
  · rintro ⟨hending, kept, hsift, hreplay⟩
    obtain ⟨hfills, hkept⟩ := sift_iff.1 hsift
    exact ⟨hending, exists_kept_iff.1 ⟨kept, hkept⟩, fills_required_iff.1 hfills,
      (horder hkept).1 hreplay⟩
  · rintro ⟨hending, hothers, hcategory, hhold⟩
    obtain ⟨kept, hkept⟩ := exists_kept_iff.2 hothers
    exact ⟨hending, kept, sift_iff.2 ⟨fills_required_iff.2 hcategory, hkept⟩,
      (horder hkept).2 hhold⟩

/-! ### Reading the order alone -/

theorem ofValues_eq_iff {xs : Values Order.record.fields} {o : Order} :
    Order.record.ofValues xs = o ↔ xs = Order.record.toValues o := by
  constructor
  · rintro rfl
    rfl
  · rintro rfl
    rfl

theorem order_read_iff {levels : Nat} {ms : List (Entry Node)} {ending : Ending} {o : Order} :
    Order.codec.read (levels + 1) (object ms ending) = .ok o ↔ ending.isClosed = true ∧
      (∀ m ∈ ms, m.isNamed (Order.record.fields.flatMap Field.keys) = true ∨
        m.isIgnorable = true) ∧
      Values.Hold levels (object ms ending) Order.record.fields 0 (Order.record.toValues o) := by
  refine (@Record.read_object_iff _ Order.record Order.nodup_keys _ _ _ _).trans ?_
  simp only [ofValues_eq_iff, exists_eq_right]

/-- The keys of a report. -/
def keys : List String := Order.record.fields.flatMap Field.keys ++ categoryField.keys

/-- The value of the one member that is the category. -/
theorem value_of_isNamed {ms : List (Entry Node)} {v : Node}
    (h : valuesNamed categoryField.keys ms = [v]) {m : Entry Node} (hm : m ∈ ms)
    (hnamed : m.isNamed categoryField.keys = true) : m.value = v := by
  have hmem : m.value ∈ valuesNamed categoryField.keys ms :=
    List.mem_map_of_mem (List.mem_filter.2 ⟨hm, hnamed⟩)
  rwa [h, List.mem_singleton] at hmem

theorem holds_category_iff {levels : Nat} {vs : List Node} {c : Category} :
    categoryField.Holds levels vs c ↔ ∃ v, vs = [v] ∧ Category.codec.read levels v = .ok c := by
  constructor
  · rintro (⟨_, h⟩ | h)
    · cases h
    · exact h
  · exact Or.inr

theorem readsSound : codec.ReadsSound := by
  intro levels t r ht h
  change read levels t = .ok r at h
  cases t with
  | object ms ending =>
    cases levels with
    | zero => cases h
    | succ levels =>
      obtain ⟨hending, hothers, hcategory, _⟩ := read_object_iff.1 h
      obtain ⟨v, hv, hread⟩ := holds_category_iff.1 hcategory
      have hsound : ∀ m ∈ ms, m.value.isSound = true := by
        intro m hm
        cases hnamed : m.isNamed categoryField.keys with
        | true =>
          have hspelled := (isSpelled_member ht hm).1
          rw [value_of_isNamed hv hm hnamed] at hspelled ⊢
          exact Codec.readsSound_choice _ _ _ levels v r.category hspelled hread
        | false =>
          have hkept := hothers m (List.mem_filter.2 ⟨hm, by simp [hnamed]⟩)
          exact (Bool.and_eq_true_iff.1 hkept.isIgnorable).2
      refine isSound_of_all_members (fun m hm => ?_) hending
      exact ⟨(isSpelled_member ht hm).2 (hsound m hm), hsound m hm⟩
  | _ => cases levels <;> cases h

/-- The order in a report is read alike where it stands alone. -/
theorem order_of_read {levels : Nat} {t : Node} (ht : t.isSound = true) {r : OrderReport}
    (h : codec.read levels t = .ok r) : Order.codec.read levels t = .ok r.order := by
  change read levels t = .ok r at h
  cases t with
  | object ms ending =>
    cases levels with
    | zero => cases h
    | succ levels =>
      obtain ⟨hending, hothers, _, hhold⟩ := read_object_iff.1 h
      refine order_read_iff.2 ⟨hending, fun m hm => Or.inr ?_, hhold⟩
      cases hnamed : m.isNamed categoryField.keys with
      | true =>
        rw [isSound, membersSound_eq, Bool.and_eq_true, List.all_eq_true] at ht
        have hsound := ht.1 m hm
        rw [memberSound_eq, Bool.and_eq_true] at hsound
        refine Bool.and_eq_true_iff.2 ⟨?_, hsound.2⟩
        rw [Entry.isNamed, Option.any_eq_true] at hnamed
        obtain ⟨key, hkey, _⟩ := hnamed
        exact Option.isSome_iff_exists.2 ⟨key, hkey⟩
      | false => exact (hothers m (List.mem_filter.2 ⟨hm, by simp [hnamed]⟩)).isIgnorable
  | _ => cases levels <;> cases h

/-- An order with one category is a report, if the members of no field can be kept. -/
theorem read_of_order {levels : Nat} {ms : List (Entry Node)} {ending : Ending} {o : Order}
    (horder : Order.codec.read (levels + 1) (object ms ending) = .ok o) {v : Node} {c : Category}
    (hv : valuesNamed categoryField.keys ms = [v]) (hc : Category.codec.read levels v = .ok c)
    (hkept : ∀ m ∈ ms, m.isNamed keys = false → m.IsKept levels) :
    codec.read (levels + 1) (object ms ending) = .ok ⟨o, c⟩ := by
  obtain ⟨hending, _, hhold⟩ := order_read_iff.1 horder
  refine read_object_iff.2 ⟨hending, fun m hm => ?_, holds_category_iff.2 ⟨v, hv, hc⟩, hhold⟩
  obtain ⟨hm, hother⟩ := List.mem_filter.1 hm
  cases hnamed : m.isNamed (Order.record.fields.flatMap Field.keys) with
  | true => exact kept_of_hold Order.agrees_fields hhold hm hnamed
  | false =>
    refine hkept m hm ?_
    rw [keys, Entry.isNamed_append, hnamed]
    simpa using hother

/-! ### One field of the order -/

/-- The category stands where no member of the order does. -/
theorem not_isNamed_category {f : Field} (hf : f ∈ Order.record.fields) {m : Entry Node}
    (hm : m.isNamed f.keys = true) : m.isNamed categoryField.keys = false :=
  Entry.not_isNamed (fun _ hcategory hkey =>
    disjoint_keys hcategory (List.mem_flatMap.2 ⟨f, hf, hkey⟩)) hm

/-- A report has for a field of its order what is read at the place of the field; with another value
at that place, from which another value is read, it has that instead. -/
theorem read_fill {f : Field} (ref : FieldRef Order.record.fields f) {place : Place}
    (hplace : place.IsAt (.field f.keys ref.index)) {levels : Nat} {v : Node} {r : OrderReport}
    (h : read (levels + 1) (place.fill v) = .ok r) :
    f.codec.read levels v = .ok (ref.get (Order.record.toValues r.order)) ∧
      ∀ w y, f.codec.read levels w = .ok y →
        read (levels + 1) (place.fill w) = .ok { r with
          order := Order.record.ofValues (ref.set y (Order.record.toValues r.order)) } := by
  cases place with
  | element before left right after ending => cases h
  | member before left key colon right after ending =>
    have hnamed (u : Node) := Place.isNamed_of_isAt hplace u
    have hother (u : Node) := not_isNamed_category ref.mem (hnamed u)
    obtain ⟨hending, hothers, hcategory, hhold⟩ := read_object_iff.1 h
    obtain ⟨hread, honly⟩ := Field.Holds.only (hnamed v) (ref.holds_get hhold)
    refine ⟨hread, fun w y hy => ?_⟩
    have hhold' := ref.hold_set Order.nodup_keys (hnamed v) (hnamed w)
      (Or.inr ⟨w, honly _ (hnamed w), hy⟩) hhold
    refine read_object_iff.2 ⟨hending, fun m hm => ?_, ?_, hhold'⟩
    · -- The members of the order are kept since they are read, the others as they were.
      obtain ⟨hm, hnot⟩ := List.mem_filter.1 hm
      cases hlisted : m.isNamed (Order.record.fields.flatMap Field.keys) with
      | true => exact kept_of_hold Order.agrees_fields hhold' hm hlisted
      | false =>
        refine hothers m (List.mem_filter.2 ⟨?_, hnot⟩)
        rw [List.mem_append, List.mem_cons] at hm ⊢
        refine hm.imp_right fun hm => hm.imp_left fun hm => ?_
        rw [hm, ref.isNamed_fields (hnamed w)] at hlisted
        cases hlisted
    · rwa [← FieldRef.valuesNamed_around (hother v) (hother w)]

/-! ### Texts -/

/-- The members of no field can be kept if the text decodes as an order and their values are
tame. -/
theorem isKept_of_decode {raw : List UInt8} (hraw : Utf8.IsText raw) {ms : List (Entry Node)}
    {ending : Ending} {o : Order} (hspells : Spells raw (object ms ending))
    (horder : decode Order.codec raw = .ok o)
    (htame : ∀ m ∈ ms, m.isNamed keys = false → m.value.isTame memberLevels = true) :
    ∀ m ∈ ms, m.isNamed keys = false → m.IsKept memberLevels := by
  intro m hm hnamed
  rw [decode_of_spells Order.codec hspells] at horder
  obtain ⟨_, hmembers, _⟩ := order_read_iff.1 horder
  obtain ⟨before, after, _, _, hgrammar, rfl⟩ := hspells
  have hinfix : m.value.text <:+: before ++ (object ms ending).text ++ after :=
    ((infix_value m).trans (infix_object hm ending)).trans ⟨before, after, rfl⟩
  have hvalue := (((isGrammatical_object ms ending).1 hgrammar).1 m hm).value
  have hunlisted : m.isNamed (Order.record.fields.flatMap Field.keys) = false := by
    rw [keys, Entry.isNamed_append, Bool.or_eq_false_iff] at hnamed
    exact hnamed.1
  have hkey := (hmembers m hm).resolve_left (by simp [hunlisted])
  exact Entry.isKept_iff.2 ⟨(Bool.and_eq_true_iff.1 hkey).1,
    kept_of_isTame hraw hvalue hinfix (htame m hm hnamed)⟩

/-- A text that decodes as a report decodes as the order of the report.  The object of an order with
one member that is a category decodes as a report of both, if the values of its other members are
tame. -/
theorem decode_agrees (text : String) :
    (∀ r, decode codec (octets text) = .ok r → decode Order.codec (octets text) = .ok r.order) ∧
      ∀ ms ending o v c, Spells (octets text) (object ms ending) →
        decode Order.codec (octets text) = .ok o →
        valuesNamed [categoryKey] ms = [v] → Category.codec.read memberLevels v = .ok c →
        (∀ m ∈ ms, m.isNamed keys = false → m.value.isTame memberLevels = true) →
        decode codec (octets text) = .ok ⟨o, c⟩ := by
  constructor
  · intro r h
    obtain ⟨t, hspells, hread⟩ := (decode_eq_ok_iff readsSound).1 h
    have hsound := (Bool.and_eq_true_iff.1 (isGrammatical_of_spells hspells)).2
    rw [decode_of_spells Order.codec hspells]
    exact order_of_read hsound hread
  · intro ms ending o v c hspells horder hv hc htame
    have hkept := isKept_of_decode (isText_octets text) hspells horder htame
    rw [decode_of_spells Order.codec hspells] at horder
    rw [decode_of_spells codec hspells]
    exact read_of_order horder hv hc hkept

/-- An order with a category among its members, and one that no field has. -/
def mixedReport : Node := ofPairs [
  ("symbol", ofString "BTCUSDT"),
  ("side", ofString "Buy"),
  ("unlisted", ofList [.null, ofPairs [("a", ofString "b")]]),
  ("orderId", ofString "1"),
  ("orderType", ofString "Limit"),
  ("orderStatus", ofString "Frozen"),
  ("qty", ofNat 7),
  ("category", ofString "linear"),
  ("timeInForce", ofString "GTC"),
  ("updatedTime", ofString "1672304484978"),
  ("createdTime", ofNat 1672304484978)]

theorem decode_agrees_mixed :
    ∃ o, decode codec (octets (textOf mixedReport.text)) = .ok ⟨o, .linear⟩ ∧
      decode Order.codec (octets (textOf mixedReport.text)) = .ok o := by
  obtain ⟨horder, hreport⟩ := decode_agrees (textOf mixedReport.text)
  have hspells : Spells (octets (textOf mixedReport.text)) mixedReport :=
    (isPlain_ofPairs (by simp [isPlain_ofList, isPlain_ofPairs])).spells
  obtain ⟨o, ho⟩ : ∃ o, Order.codec.read allLevels mixedReport = .ok o := ⟨_, rfl⟩
  rw [← decode_of_spells Order.codec hspells] at ho
  have hr : decode codec (octets (textOf mixedReport.text)) = .ok ⟨o, .linear⟩ :=
    hreport _ _ o (ofString "linear") .linear hspells ho (by rfl) (by rfl) (by decide +kernel)
  exact ⟨o, hr, horder ⟨o, .linear⟩ hr⟩

end OrderReport

end MarketFeed
