import MarketFeed.Proofs.Json.Integer
import MarketFeed.Proofs.Market.Verbatim

/-!
# The sequence of order books

An order book push becomes one update of a book, with the symbol, the update number and the sequence
number of the payload (`CarriesSequence`).  The update replaces the book if the type of the frame
says so, or if the update number is one in any spelling; it amends the book otherwise.
-/

namespace MarketFeed

open Json Json.Node

/-- The update of an order book has the symbol and the numbers of a payload: the numbers that are
denoted there, unless an object wraps the text of one.  It replaces the book if the type of the
frame is that of a snapshot, or if the update number is one. -/
structure Sequenced (type symbol u seq : Node) (update : BookUpdate) : Prop where
  symbol : symbol.string? = some update.book.symbol
  updateId : u.MeansNat memberLevels update.updateId.toNat
  sequence : ∃ n, update.sequence = some n ∧ seq.MeansNat memberLevels n.toNat
  bare : ∀ t ∈ [u, seq], (∀ s, ¬t.Wraps s) → ∀ n, t.MeansNat memberLevels n ↔ t.DenotesNat n
  isTyped : type.name? = some "snapshot" ∨ type.name? = some "delta"
  isSnapshot : update.isSnapshot = true ↔ type.name? = some "snapshot" ∨ u.MeansNat memberLevels 1
  snapshot : type.name? = some "snapshot" → update.isSnapshot = true
  delta : type.name? = some "delta" → ¬u.MeansNat memberLevels 1 → update.isSnapshot = false

/-- The update of an order book has the sequence that a frame and its payload state. -/
def CarriesSequence (frame : Node) (update : BookUpdate) : Prop :=
  ∃ type payload symbol u seq,
    frame.field? ["type"] 7 = some type ∧ frame.field? ["data"] 9 = some payload ∧
    payload.field? ["s"] 0 = some symbol ∧ payload.field? ["u"] 3 = some u ∧
    payload.field? ["seq"] 4 = some seq ∧ Sequenced type symbol u seq update

/-! ### Pushes -/

/-- The kind of a push is read from its name. -/
theorem PushKind.name_of_read {levels : Nat} {t : Node} {kind : PushKind}
    (h : PushKind.codec.read levels t = .ok kind) : t.name? = some kind.text := by
  obtain ⟨name, hname, hlookup⟩ := Codec.choice_read h
  simp only [List.map_cons, List.map_nil, List.lookup_cons, List.lookup_nil] at hlookup
  rw [hname]
  split at hlookup
  · next hsnapshot =>
    cases hlookup
    exact congrArg some (eq_of_beq hsnapshot)
  · split at hlookup
    · next hdelta =>
      cases hlookup
      exact congrArg some (eq_of_beq hdelta)
    · cases hlookup

theorem BookPush.replaces_iff (p : BookPush) :
    p.replaces = true ↔ p.kind = .snapshot ∨ p.updateId = 1 := by
  rw [replaces, isRestart, Bool.or_eq_true, beq_iff_eq, beq_iff_eq]

theorem sequenced_of_push {type symbol u seq : Node} {p : BookPush}
    (htype : type.name? = some p.kind.text) (hsymbol : symbol.string? = some p.symbol)
    (hu : u.MeansNat memberLevels p.updateId.toNat)
    (hseq : seq.MeansNat memberLevels p.sequence.toNat) :
    Sequenced type symbol u seq (IntervalTable.update p) := by
  have hone : u.MeansNat memberLevels 1 ↔ p.updateId = 1 := by
    constructor
    · intro h
      exact UInt64.toNat_inj.1 (hu.unique h)
    · intro h
      rw [h] at hu
      exact hu
  have hsnapshot : type.name? = some "snapshot" ↔ p.kind = .snapshot := by
    rw [htype]
    cases p.kind <;> decide
  have hdelta : type.name? = some "delta" → p.kind ≠ .snapshot := by
    rw [htype]
    cases p.kind <;> decide
  rw [update_eq]
  refine ⟨hsymbol, hu, ⟨p.sequence, rfl, hseq⟩, fun _ _ hwraps _ => meansNat_iff hwraps, ?_, ?_,
    fun h => ?_, fun h hne => ?_⟩
  · rw [htype]
    cases p.kind with
    | snapshot => exact Or.inl rfl
    | delta => exact Or.inr rfl
  · rw [hsnapshot, hone]
    exact p.replaces_iff
  · exact p.replaces_iff.2 (Or.inl (hsnapshot.1 h))
  · refine Bool.eq_false_iff.2 fun hreplaces => ?_
    rcases p.replaces_iff.1 hreplaces with hkind | hid
    · exact hdelta h hkind
    · exact hne (hone.2 hid)

/-! ### Frames -/

theorem push_of_book {table : IntervalTable} {raw : List UInt8} {book : BookPush}
    (hread : (table.feed.read raw).result = .ok (.book book)) :
    ∃ p, Envelope.decode raw = .ok (.push p) ∧ p.event = .ok (.book book) := by
  have hframe : Event.ofFrame raw = .ok (.book book) := (Event.result_read raw).symm.trans hread
  rcases Event.ofFrame_eq_ok_iff.1 hframe with ⟨_, _, _, he⟩ | hpush
  · cases he
  · exact hpush

/-- An order book push becomes one update, with the sequence of the frame that was read. -/
theorem marketData_sequenced {table : IntervalTable} {raw : List UInt8} {book : BookPush}
    (hread : (table.feed.read raw).result = .ok (.book book)) (adapter : IntervalTable) :
    ∃ frame update, Spells raw frame ∧ adapter.marketData (.book book) = .ok [.book update] ∧
      (Event.book book).symbol = some update.book.symbol ∧ CarriesSequence frame update := by
  obtain ⟨p, hpush, hevent⟩ := push_of_book hread
  cases Push.event_eq_ok_iff.1 hevent with
  | book htopic hdecode =>
    obtain ⟨frame, payload, hframe, hdata, hpayload⟩ := Envelope.spells_payload hpush
    obtain ⟨frame', type, hframe', htype, hkind⟩ := Envelope.kind_of_push hpush (Or.inl htopic)
    obtain rfl := spells_unique hframe hframe'
    rw [decode_of_spells BookPayload.codec hpayload] at hdecode
    obtain ⟨⟨symbol, hsymbolField, hsymbol⟩, _, _, ⟨u, huField, hu⟩, ⟨seq, hseqField, hseq⟩⟩ :=
      BookPayload.isOf_of_read hdecode
    refine ⟨frame, IntervalTable.update _, hframe, rfl, ?_, type, payload, symbol, u, seq, htype,
      hdata, hsymbolField, huField, hseqField, ?_⟩
    · rw [update_eq]
      rfl
    · exact sequenced_of_push (PushKind.name_of_read hkind) hsymbol (Codec.word_read_iff.1 hu)
        (Codec.word_read_iff.1 hseq)

/-- A frame that amends a book by its type, with an update number. -/
def restartFrame (updateId : Node) : Node :=
  ofPairs [
    ("topic", ofString "orderbook.1.BTCUSDT"),
    ("type", ofString "delta"),
    ("ts", ofNat 1672304484978),
    ("data", ofPairs [
      ("s", ofString "BTCUSDT"),
      ("b", ofList []),
      ("a", ofList []),
      ("u", updateId),
      ("seq", ofNat 7961638724)])]

/-- The push of that frame where the update number is one, so that the book is a new one. -/
def restart : BookPush := ⟨⟨"BTCUSDT", [], [], 1, 7961638724⟩, .delta⟩

theorem marketData_sequenced_restart :
    (IntervalTable.standard.feed.read (restartFrame (ofString " +01 ")).text).result =
        .ok (.book restart) ∧
      ∃ frame update, Spells (restartFrame (ofString " +01 ")).text frame ∧
        IntervalTable.standard.marketData (.book restart) = .ok [.book update] ∧
        (Event.book restart).symbol = some update.book.symbol ∧ CarriesSequence frame update ∧
        update.isSnapshot = true := by
  have hread : (IntervalTable.standard.feed.read (restartFrame (ofString " +01 ")).text).result =
      .ok (.book restart) := by
    decide +kernel
  obtain ⟨frame, update, hframe, hdata, hsymbol, hcarries⟩ :=
    marketData_sequenced hread IntervalTable.standard
  refine ⟨hread, frame, update, hframe, hdata, hsymbol, hcarries, ?_⟩
  cases hdata
  rfl

/-- An update number that is no integer in any spelling is taken for one, and the update replaces
the book. -/
theorem marketData_takes_wrapped :
    (∀ n, ¬(wrap "1").DenotesNat n) ∧
      (IntervalTable.standard.feed.read (restartFrame (wrap "1")).text).result =
        .ok (.book restart) ∧
      ∃ update, IntervalTable.standard.marketData (.book restart) = .ok [.book update] ∧
        update.updateId = 1 ∧ update.isSnapshot = true := by
  refine ⟨fun _ h => h, ?_, IntervalTable.update restart, rfl, rfl, rfl⟩
  decide +kernel

end MarketFeed
