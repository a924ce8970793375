import MarketFeed.Proofs.Exchange.Push
import MarketFeed.Proofs.Exchange.Report
import MarketFeed.Proofs.Json.Ends
import MarketFeed.Proofs.Json.Layout

/-!
# Names that are not listed

The side, the type, the state and the validity of an order are open lists of names: whatever text
stands for one is kept, and the order and its payload are otherwise read as they were
(`Push.event_renamed`).  A name is known exactly if it is listed, and the text of a name that has
been read stands for that name.
-/

namespace MarketFeed

open Json Json.Node

/-- A field of an order with a name from an open list. -/
inductive OpenField where
  | side
  | orderType
  | orderStatus
  | timeInForce

namespace OpenField

/-- The key of the field. -/
def key : OpenField → String
  | side => "side"
  | orderType => "orderType"
  | orderStatus => "orderStatus"
  | timeInForce => "timeInForce"

/-- The names that are listed for the field. -/
def names : OpenField → List String
  | side => ["Buy", "Sell"]
  | orderType => ["Market", "Limit"]
  | orderStatus => ["Created", "New", "Rejected", "PartiallyFilled", "PartiallyFilledCanceled",
    "Filled", "Cancelled", "Untriggered", "Triggered", "Deactivated", "Active"]
  | timeInForce => ["GTC", "IOC", "FOK", "PostOnly"]

/-- The text of the field. -/
def text (f : OpenField) (o : Order) : String :=
  match f with
  | side => o.side.text
  | orderType => o.orderType.text
  | orderStatus => o.orderStatus.text
  | timeInForce => o.timeInForce.text

/-- Whether the name in the field is one of those listed. -/
def isKnown (f : OpenField) (o : Order) : Bool :=
  match f with
  | side => o.side.isKnown
  | orderType => o.orderType.isKnown
  | orderStatus => o.orderStatus.isKnown
  | timeInForce => o.timeInForce.isKnown

/-- An order with the name that a text stands for in the field. -/
def put (f : OpenField) (s : String) (o : Order) : Order :=
  match f with
  | side => { o with side := .ofText s }
  | orderType => { o with orderType := .ofText s }
  | orderStatus => { o with orderStatus := .ofText s }
  | timeInForce => { o with timeInForce := .ofText s }

/-- The field among those of an order. -/
def field : OpenField → Json.Field
  | side => .required "side" "side" Side.codec
  | orderType => .required "order_type" "orderType" OrderType.codec
  | orderStatus => .required "order_status" "orderStatus" OrderStatus.codec
  | timeInForce => .required "time_in_force" "timeInForce" TimeInForce.codec

/-- Where the field is among those of an order. -/
def ref : (f : OpenField) → FieldRef Order.record.fields f.field
  | side => .there <| .there <| .there .here
  | orderType => .there <| .there <| .there <| .there .here
  | orderStatus => .there <| .there <| .there <| .there <| .there .here
  | timeInForce => .there <| .there <| .there <| .there <| .there <| .there .here

/-- The name that a text stands for. -/
def ofText (s : String) : (f : OpenField) → f.field.Carrier
  | side => Side.ofText s
  | orderType => OrderType.ofText s
  | orderStatus => OrderStatus.ofText s
  | timeInForce => TimeInForce.ofText s

/-- The step from an order to the field. -/
def step (f : OpenField) : Step := .field [f.key] f.ref.index

end OpenField

/-- Two trees are arrays of which one object differs, by having as the name in a field a string that
stands for a given text. -/
inductive Json.Node.Renames (f : OpenField) (i : Nat) (s : String) : Node → Node → Prop
  | intro {before after : List (Spaced Node)} {left right : Gap} {ending : Ending} {place : Place}
    {v : Node} {body : List StringPart} (hi : before.length = i) (hplace : place.IsAt f.step)
    (hbody : StringPart.decode? body = some s) :
    Renames f i s ((Place.element before left right after ending).fill (place.fill v))
      ((Place.element before left right after ending).fill (place.fill (.string body)))

/-! ### Names -/

/-- Each listed name has a value that is known and has that text, and any other text has a value
that is not known and has that text too. -/
structure KeepsNames {α : Type} (names : List String) (ofText : String → α) (text : α → String)
    (isKnown : α → Bool) : Prop where
  listed : ∀ s ∈ names, isKnown (ofText s) = true ∧ text (ofText s) = s
  other : ∀ s, s ∉ names → isKnown (ofText s) = false ∧ text (ofText s) = s

namespace KeepsNames

variable {α : Type} {names : List String} {ofText : String → α} {text : α → String}
  {isKnown : α → Bool}

theorem text_ofText (h : KeepsNames names ofText text isKnown) (s : String) :
    text (ofText s) = s := by
  by_cases hs : s ∈ names
  · exact (h.listed s hs).2
  · exact (h.other s hs).2

theorem isKnown_ofText_iff (h : KeepsNames names ofText text isKnown) (s : String) :
    isKnown (ofText s) = true ↔ s ∈ names := by
  by_cases hs : s ∈ names
  · simp [hs, (h.listed s hs).1]
  · simp [hs, (h.other s hs).1]

end KeepsNames

theorem Side.keepsNames : KeepsNames OpenField.side.names ofText text isKnown where
  listed := by decide
  other s hs := by
    simp only [OpenField.names, List.mem_cons, List.not_mem_nil, or_false, not_or] at hs
    simp [ofText, hs, isKnown, text]

theorem OrderType.keepsNames : KeepsNames OpenField.orderType.names ofText text isKnown where
  listed := by decide
  other s hs := by
    simp only [OpenField.names, List.mem_cons, List.not_mem_nil, or_false, not_or] at hs
    simp [ofText, hs, isKnown, text]

theorem OrderStatus.keepsNames : KeepsNames OpenField.orderStatus.names ofText text isKnown where
  listed := by decide
  other s hs := by
    simp only [OpenField.names, List.mem_cons, List.not_mem_nil, or_false, not_or] at hs
    simp [ofText, hs, isKnown, text]

theorem TimeInForce.keepsNames : KeepsNames OpenField.timeInForce.names ofText text isKnown where
  listed := by decide
  other s hs := by
    simp only [OpenField.names, List.mem_cons, List.not_mem_nil, or_false, not_or] at hs
    simp [ofText, hs, isKnown, text]

theorem Operation.text_ofText (s : String) : (ofText s).text = s := by
  unfold ofText
  split_ifs <;> subst_vars <;> rfl

namespace OpenField

/-- The text of the name that a text stands for is that text. -/
theorem text_put (f : OpenField) (s : String) (o : Order) : f.text (f.put s o) = s := by
  cases f with
  | side => exact Side.keepsNames.text_ofText s
  | orderType => exact OrderType.keepsNames.text_ofText s
  | orderStatus => exact OrderStatus.keepsNames.text_ofText s
  | timeInForce => exact TimeInForce.keepsNames.text_ofText s

/-- The name that a text stands for is known if it is listed. -/
theorem isKnown_put (f : OpenField) (s : String) (o : Order) :
    f.isKnown (f.put s o) = true ↔ s ∈ f.names := by
  cases f with
  | side => exact Side.keepsNames.isKnown_ofText_iff s
  | orderType => exact OrderType.keepsNames.isKnown_ofText_iff s
  | orderStatus => exact OrderStatus.keepsNames.isKnown_ofText_iff s
  | timeInForce => exact TimeInForce.keepsNames.isKnown_ofText_iff s

/-! ### One order -/

theorem keys_field (f : OpenField) : f.field.keys = [f.key] := by cases f <;> rfl

theorem ofValues_set (f : OpenField) (s : String) (o : Order) :
    Order.record.ofValues (f.ref.set (f.ofText s) (Order.record.toValues o)) = f.put s o := by
  cases f <;> rfl

theorem read_eq_ok_iff {f : OpenField} {levels : Nat} {v : Node} {x : f.field.Carrier} :
    f.field.codec.read levels v = .ok x ↔ ∃ s, v.string? = some s ∧ f.ofText s = x := by
  cases f with
  | side => exact @Codec.named_read_iff Side _ _ _ _ _ _ _
  | orderType => exact @Codec.named_read_iff OrderType _ _ _ _ _ _ _
  | orderStatus => exact @Codec.named_read_iff OrderStatus _ _ _ _ _ _ _
  | timeInForce => exact @Codec.named_read_iff TimeInForce _ _ _ _ _ _ _

/-- The name in the field of a report is the one that a string at its place stands for. -/
theorem exists_place (f : OpenField) {levels : Nat} {t : Node} {r : OrderReport}
    (h : OrderReport.codec.read levels t = .ok r) :
    ∃ place v s, Place.IsAt place f.step ∧ place.fill v = t ∧ v.string? = some s ∧
      f.put s r.order = r.order := by
  change OrderReport.read levels t = .ok r at h
  cases t with
  | object ms ending =>
    cases levels with
    | zero => cases h
    | succ levels =>
      obtain ⟨_, _, _, hhold⟩ := OrderReport.read_object_iff.1 h
      have hrequired : f.field.absence.object? = none := by cases f <;> rfl
      obtain ⟨_, hnone⟩ | ⟨v, hv, hread⟩ := f.ref.holds_get hhold
      · cases hrequired.symm.trans hnone
      · obtain ⟨s, hs, hname⟩ := read_eq_ok_iff.1 hread
        have hfield : (object ms ending).field? f.field.keys (0 + f.ref.index) = some v := by
          rw [field?, hv]
        obtain ⟨place, hplace, hfill⟩ := Place.exists_of_field? hfield
        rw [Nat.zero_add, keys_field] at hplace
        refine ⟨place, v, s, hplace, hfill, hs, ?_⟩
        rw [← ofValues_set, hname, FieldRef.set_get]
        rfl
  | _ => cases levels <;> cases h

/-- A report with another string in the field is the same but for the name in it. -/
theorem read_put {f : OpenField} {place : Place} (hplace : place.IsAt f.step) {levels : Nat}
    {v : Node} {r : OrderReport} (h : OrderReport.read (levels + 1) (place.fill v) = .ok r)
    {body : List StringPart} {s : String} (hbody : StringPart.decode? body = some s) :
    OrderReport.read (levels + 1) (place.fill (.string body)) =
      .ok { r with order := f.put s r.order } := by
  rw [step, ← keys_field] at hplace
  obtain ⟨_, hfill⟩ := OrderReport.read_fill f.ref hplace h
  have hread := hfill (.string body) _ (read_eq_ok_iff.2 ⟨s, hbody, rfl⟩)
  rwa [ofValues_set] at hread

/-- The text of the field is written under its key. -/
theorem get?_write (f : OpenField) (r : OrderReport) :
    (OrderReport.codec.write r).get? f.key = some (ofString (f.text r.order)) := by
  have hfield : valuesNamed [f.key] (Order.record.members r.order) =
      [ofString (f.text r.order)] := by
    rw [← keys_field]
    have hwritten : f.field.isOmitted (f.ref.get (Order.record.toValues r.order)) = false := by
      cases f <;> rfl
    refine (f.ref.valuesNamed_members Order.nodup_keys hwritten).trans ?_
    cases f <;> rfl
  have hcategory :
      (member OrderReport.categoryKey (Category.codec.write r.category)).isNamed [f.key] =
        false := by
    rw [isNamed_member]
    cases f <;> decide
  change (ofMembers (Order.record.members r.order ++
    [member OrderReport.categoryKey (Category.codec.write r.category)])).get? f.key = _
  rw [ofMembers, get?, valuesNamed_append, hfield, valuesNamed_cons_neg hcategory]
  rfl

/-- The laws of a name from an open list: it has the text that stands for it, is written as that
text and known if that is listed, and no two of which one is known have the same text. -/
structure IsOpen (f : OpenField) : Prop where
  text (s : String) (o : Order) : f.text (f.put s o) = s
  written (r : OrderReport) :
    (OrderReport.codec.write r).get? f.key = some (ofString (f.text r.order))
  known (s : String) (o : Order) : f.isKnown (f.put s o) = true ↔ s ∈ f.names
  returned {levels : Nat} {t : Node} {r : OrderReport}
    (h : OrderReport.codec.read levels t = .ok r) : f.put (f.text r.order) r.order = r.order
  distinct {levels levels' : Nat} {t t' : Node} {r r' : OrderReport}
    (h : OrderReport.codec.read levels t = .ok r) (h' : OrderReport.codec.read levels' t' = .ok r')
    (hknown : f.isKnown r.order = true) (hunknown : f.isKnown r'.order = false) :
    f.text r.order ≠ f.text r'.order

theorem put_text {f : OpenField} {levels : Nat} {t : Node} {r : OrderReport}
    (h : OrderReport.codec.read levels t = .ok r) : f.put (f.text r.order) r.order = r.order := by
  obtain ⟨_, _, s, _, _, _, hs⟩ := f.exists_place h
  have htext : f.text r.order = s := by
    rw [← hs]
    exact f.text_put s r.order
  rw [htext, hs]

theorem isKnown_iff {f : OpenField} {levels : Nat} {t : Node} {r : OrderReport}
    (h : OrderReport.codec.read levels t = .ok r) :
    f.isKnown r.order = true ↔ f.text r.order ∈ f.names := by
  have hknown := f.isKnown_put (f.text r.order) r.order
  rwa [put_text h] at hknown

theorem isOpen (f : OpenField) : f.IsOpen where
  text := f.text_put
  written := f.get?_write
  known := f.isKnown_put
  returned := put_text
  distinct h h' hknown hunknown htext := by
    have hlisted := (isKnown_iff h).1 hknown
    rw [htext] at hlisted
    rw [(isKnown_iff h').2 hlisted] at hunknown
    cases hunknown

end OpenField

/-! ### One order of a list -/

/-- A list has for one element of an array what is read from it, and with another value there, from
which another is read, that instead. -/
theorem Json.Codec.list_read_fill {α : Type} {codec : Codec α} {levels : Nat}
    {before after : List (Spaced Node)} {left right : Gap} {ending : Ending} {v : Node}
    {xs : List α} (h : (list codec).read (levels + 1)
      ((Place.element before left right after ending).fill v) = .ok xs) :
    ∃ x, xs[before.length]? = some x ∧ codec.read levels v = .ok x ∧
      ∀ w y, codec.read levels w = .ok y → (list codec).read (levels + 1)
        ((Place.element before left right after ending).fill w) = .ok (xs.set before.length y) := by
  obtain ⟨hread, hending⟩ := list_read_iff.1 h
  obtain ⟨x, hx, hv, hset⟩ := Outcome.forall₂_set hread
  exact ⟨x, hx, hv, fun w y hw => list_read_iff.2 ⟨hset ⟨left, w, right⟩ y hw, hending⟩⟩

/-! ### Payloads -/

namespace Push

variable {p : Push} {reports : List OrderReport}

theorem decode_of_orders (h : p.event = .ok (.orders reports)) :
    p.topicType = .order ∧
      Json.decode (.list OrderReport.codec) (octets p.payload) = .ok reports := by
  cases event_eq_ok_iff.1 h with
  | orders htype hread => exact ⟨htype, hread⟩

/-- Orders with another name in one of them are those orders with that name. -/
theorem event_renamed (h : p.event = .ok (.orders reports)) {payload : String} {t t' : Node}
    (ht : Spells (octets p.payload) t) (ht' : Spells (octets payload) t') {f : OpenField} {i : Nat}
    {s : String} (hnames : t.Renames f i s t') :
    ∃ r, reports[i]? = some r ∧ ({ p with payload } : Push).event =
      .ok (.orders (reports.set i { r with order := f.put s r.order })) := by
  obtain ⟨htype, hread⟩ := decode_of_orders h
  obtain @⟨before, after, left, right, ending, place, v, body, rfl, hplace, hbody⟩ := hnames
  rw [decode_of_spells _ ht] at hread
  change (Codec.list OrderReport.codec).read (allLevels - 1 + 1) _ = .ok reports at hread
  obtain ⟨r, hr, hvalue, hset⟩ := Codec.list_read_fill hread
  change OrderReport.read (allLevels - 2 + 1) _ = .ok r at hvalue
  have hput := OpenField.read_put hplace hvalue hbody
  refine ⟨r, hr, event_eq_ok_iff.2 (.orders htype ?_)⟩
  exact (decode_of_spells _ ht').trans (hset _ _ hput)

/-- Any text may be the name in a field of an order. -/
theorem exists_renamed (h : p.event = .ok (.orders reports)) {i : Nat} (hi : i < reports.length)
    (f : OpenField) (s : String) :
    ∃ t t' payload, Spells (octets p.payload) t ∧ Spells (octets payload) t' ∧
      t.Renames f i s t' := by
  obtain ⟨_, hdecode⟩ := decode_of_orders h
  obtain ⟨t, ht, hread⟩ :=
    (decode_eq_ok_iff (Codec.readsSound_list OrderReport.readsSound)).1 hdecode
  cases t with
  | array es ending =>
    change (Codec.list OrderReport.codec).read (allLevels - 1 + 1) _ = .ok reports at hread
    obtain ⟨hlists, _⟩ := Codec.list_read_iff.1 hread
    have hlt : i < es.length := hlists.length_eq ▸ hi
    obtain ⟨place, v, _, hplace, hfill, _⟩ := f.exists_place (hlists.get hlt hi)
    obtain ⟨before, left, right, after, hlength, hes⟩ := Place.exists_element hlt ending
    rw [← hes, ← show place.fill v = es[i].value from hfill] at ht
    have hplaces : Spells (octets p.payload)
        (Place.fillAll [.element before left right after ending, place] v) := ht
    obtain ⟨payload, ht'⟩ := Place.exists_spells_fillAll hplaces (isPlain_ofString s)
    exact ⟨_, _, payload, ht, ht', .intro hlength hplace (string?_ofString s)⟩
  | _ => cases hread

end Push

/-! ### Operations and topics -/

theorem Operation.ofText_text_of_read {levels : Nat} {v : Node} {op : Operation}
    (h : codec.read levels v = .ok op) : ofText op.text = op := by
  obtain ⟨s, _, rfl⟩ := Codec.named_read_iff.1 h
  rw [text_ofText]

/-- The operation of an acknowledgement that says none stands for the empty text. -/
theorem Operation.ofText_text_of_decode {raw : List UInt8} {a : Acknowledgement}
    (h : Envelope.decode raw = .ok (.acknowledgement a)) : ofText a.op.text = a.op := by
  obtain ⟨f, hf, hack⟩ := Envelope.decode_eq_ok_iff.1 h
  obtain ⟨_, _, rfl⟩ := Envelope.ofFields_eq_acknowledgement_iff.1 hack
  obtain ⟨t, _, _, _, _, _, hop, _⟩ := FrameFields.hold_of_decode hf
  cases hvalue : f.op with
  | none =>
    rw [FrameFields.acknowledgement, hvalue]
    rfl
  | some op =>
    obtain ⟨v, _, _, hread⟩ := FrameFields.read_of_holds rfl hop hvalue
    rw [FrameFields.acknowledgement, hvalue]
    exact ofText_text_of_read hread

theorem Push.ofText_text_topicType (p : Push) :
    TopicType.ofText p.topicType.text = p.topicType := by
  rw [text_topicType, topicType, Topic.type_eq_ofText_first]

/-- Whatever text stands for the name in a field of an order, the orders of a push are otherwise as
they were, and the name is the one that the text stands for.  Texts and what is read for them stand
for each other also where they name operations and types of topics. -/
theorem open_names_kept :
    (∀ f : OpenField, f.IsOpen) ∧
    (∀ (p : Push) reports, p.event = .ok (.orders reports) → ∀ i < reports.length, ∀ f s,
      (∃ t t' payload, Spells (octets p.payload) t ∧ Spells (octets payload) t' ∧
        Renames f i s t t') ∧
      ∀ t t' payload, Spells (octets p.payload) t → Spells (octets payload) t' →
        Renames f i s t t' → ∃ r, reports[i]? = some r ∧ ({ p with payload } : Push).event =
          .ok (.orders (reports.set i { r with order := f.put s r.order }))) ∧
    ((∀ s, (Operation.ofText s).text = s) ∧
      (∀ levels v op, Operation.codec.read levels v = .ok op → Operation.ofText op.text = op) ∧
      ∀ raw a, Envelope.decode raw = .ok (.acknowledgement a) →
        Operation.ofText a.op.text = a.op) ∧
    (∀ s, (TopicType.ofText s).text = s) ∧
    ∀ p : Push, TopicType.ofText p.topicType.text = p.topicType := by
  refine ⟨OpenField.isOpen, fun p reports h i hi f s => ⟨Push.exists_renamed h hi f s, ?_⟩,
    ⟨Operation.text_ofText, fun _ _ _ => Operation.ofText_text_of_read,
      fun _ _ => Operation.ofText_text_of_decode⟩, Topic.text_ofText, Push.ofText_text_topicType⟩
  exact fun t t' payload ht ht' => Push.event_renamed h ht ht'

/-- An order without its state. -/
def statusPlace : Place :=
  .member [member "orderId" (ofString "1"), member "category" (ofString "linear"),
      member "symbol" (ofString "BTCUSDT"), member "side" (ofString "Buy"),
      member "orderType" (ofString "Limit")] []
    (StringPart.encode "orderStatus") (some ([], [])) []
    [member "timeInForce" (ofString "GTC"), member "createdTime" (ofNat 1672304484978),
      member "updatedTime" (ofNat 1672304484978)] (.closed [])

/-- A payload of two orders, the second of which has the given state. -/
def statusPayload (status : Node) : Node :=
  ofList [statusPlace.fill (ofString "New"), statusPlace.fill status]

/-- The push of that payload. -/
def statusPush (status : Node) : Push where
  topic := TopicType.order.text
  kind := .snapshot
  timestamp := 0
  payload := textOf (statusPayload status).text

theorem spells_statusPush (s : String) :
    Spells (octets (statusPush (ofString s)).payload) (statusPayload (ofString s)) := by
  have horder (name : String) : (statusPlace.fill (ofString name)).IsPlain :=
    @isPlain_ofPairs [("orderId", ofString "1"), ("category", ofString "linear"),
      ("symbol", ofString "BTCUSDT"), ("side", ofString "Buy"), ("orderType", ofString "Limit"),
      ("orderStatus", ofString name), ("timeInForce", ofString "GTC"),
      ("createdTime", ofNat 1672304484978), ("updatedTime", ofNat 1672304484978)] (by simp)
  exact (isPlain_ofList (by simp [horder])).spells

theorem open_names_kept_frozen :
    ∃ reports r, (statusPush (ofString "New")).event = .ok (.orders reports) ∧
      reports[1]? = some r ∧ (statusPush (ofString "Frozen")).event = .ok (.orders
        (reports.set 1 { r with order := { r.order with orderStatus := .unknown "Frozen" } })) := by
  obtain ⟨reports, hread⟩ : ∃ reports, (Codec.list OrderReport.codec).read allLevels
      (statusPayload (ofString "New")) = .ok reports := ⟨_, rfl⟩
  have hlength := (Codec.list_read_iff.1 hread).1.length_eq
  have hevent : (statusPush (ofString "New")).event = .ok (.orders reports) :=
    Push.event_eq_ok_iff.2 (.orders (by decide)
      ((decode_of_spells _ (spells_statusPush "New")).trans hread))
  obtain ⟨_, hrenamed, _⟩ := open_names_kept
  obtain ⟨_, hall⟩ :=
    hrenamed _ _ hevent 1 (hlength ▸ by decide) .orderStatus "Frozen"
  have hnames : Renames .orderStatus 1 "Frozen" (statusPayload (ofString "New"))
      (statusPayload (ofString "Frozen")) :=
    @Renames.intro _ _ _ [⟨[], statusPlace.fill (ofString "New"), []⟩] [] [] [] (.closed [])
      statusPlace _ _ rfl ⟨"orderStatus", by decide, StringPart.decode?_encode _⟩
      (StringPart.decode?_encode _)
  obtain ⟨r, hr, hrest⟩ := hall _ _ _ (spells_statusPush "New") (spells_statusPush "Frozen") hnames
  exact ⟨reports, r, hevent, hr, hrest⟩

end MarketFeed
