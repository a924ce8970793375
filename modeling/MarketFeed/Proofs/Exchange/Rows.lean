import MarketFeed.Proofs.Exchange.Classification
import MarketFeed.Proofs.Exchange.Content
import MarketFeed.Proofs.Exchange.Routing
import MarketFeed.Proofs.Json.Rows

/-!
# Arrays in place of objects

The exchange sends its frames and records as objects, but an array that is a row of a record is
taken for the record as well.  A frame that is an array is malformed unless it is a row of ten, and
is then what the fields in it make it (`Envelope.JudgesArray`).  A payload with an array for an
order book, a candle, a wallet or a balance fails unless the array is a row of that record
(`Push.JudgesArrays`).
-/

namespace MarketFeed

open Json Json.Node

namespace Envelope

/-- What becomes of a frame that is an array with the given elements. -/
structure JudgesArray (raw : List UInt8) (ts : List Node) : Prop where
  row : ∀ f, FrameFields.record.IsRow memberLevels ts f → ts.length = 10 ∧ Classified raw f
  other : (∀ f, ¬FrameFields.record.IsRow memberLevels ts f) →
    ∃ fault, decode raw = .error (.malformed (.json fault) (textOf raw))

end Envelope

namespace Push

/-- A tree is an array that is a row of a record. -/
def IsRowOf {α : Type} (record : Record α) (levels : Nat) (t : Node) (a : α) : Prop :=
  ∃ ts, t.list? = some ts ∧ record.IsRow levels ts a

/-- A tree is an array that is no row of a record. -/
def IsNoRowOf {α : Type} (record : Record α) (levels : Nat) (t : Node) : Prop :=
  ∃ ts, t.list? = some ts ∧ ∀ a, ¬record.IsRow levels ts a

/-- The payload of a push is a row of an order book, or lists rows of candles or wallets: the event
with their values. -/
inductive HasRows (p : Push) (payload : Node) : Event → Prop
  | book {b : BookPayload} (htype : p.topicType = .orderBook)
    (hrow : IsRowOf BookPayload.record (allLevels - 1) payload b) :
    HasRows p payload (.book { toBookPayload := b, kind := p.kind })
  | candles {symbol : String} {candles : List Candle} (htype : p.topicType = .kline)
    (hsymbol : Topic.symbol? p.topic = some symbol) (hne : candles ≠ [])
    (hrows : payload.Lists (IsRowOf Candle.record (allLevels - 2)) candles) :
    HasRows p payload (.candles { symbol, kind := p.kind, candles })
  | wallets {wallets : List Wallet} (htype : p.topicType = .wallet)
    (hrows : payload.Lists (IsRowOf Wallet.record (allLevels - 2)) wallets) :
    HasRows p payload (.wallets wallets)

/-- The payload of a push has an array where its topic calls for an order book, a candle, a wallet
or a balance of a wallet, and the array is no row of that record. -/
inductive HasNoRow (p : Push) (payload : Node) : Prop
  | book (htype : p.topicType = .orderBook)
    (hbad : IsNoRowOf BookPayload.record (allLevels - 1) payload)
  | candle {ts : List Node} {t : Node} (htype : p.topicType = .kline)
    (hts : payload.list? = some ts) (ht : t ∈ ts)
    (hbad : IsNoRowOf Candle.record (allLevels - 2) t)
  | wallet {ts : List Node} {t : Node} (htype : p.topicType = .wallet)
    (hts : payload.list? = some ts) (ht : t ∈ ts)
    (hbad : IsNoRowOf Wallet.record (allLevels - 2) t)
  | coin {ts cs : List Node} {t coins c : Node} (htype : p.topicType = .wallet)
    (hts : payload.list? = some ts) (ht : t ∈ ts) (hcoins : t.field? ["coin"] 10 = some coins)
    (hcs : coins.list? = some cs) (hc : c ∈ cs)
    (hbad : IsNoRowOf CoinBalance.record (allLevels - 4) c)

/-- What becomes of a payload with arrays in place of records. -/
structure JudgesArrays (p : Push) (payload : Node) : Prop where
  rows : ∀ event, p.HasRows payload event → p.event = .ok event
  other : p.HasNoRow payload →
    (p.topicType = .kline → ∃ symbol, Topic.symbol? p.topic = some symbol) →
    ∃ fault, p.event = .error (.payload p.topicType p.payload fault)
  lengths : ∀ levels ts,
    (∀ b, BookPayload.record.IsRow levels ts b → ts.length = 5) ∧
    (∀ c, Candle.record.IsRow levels ts c → ts.length = 11) ∧
    (∀ w, Wallet.record.IsRow levels ts w → 0 < ts.length ∧ ts.length ≤ 11) ∧
    ∀ b, CoinBalance.record.IsRow levels ts b → 0 < ts.length ∧ ts.length ≤ 15

end Push

/-! ### Frames -/

namespace Envelope

theorem judgesArray {raw : List UInt8} {frame : Node} {ts : List Node} (hraw : Spells raw frame)
    (hts : frame.list? = some ts) : JudgesArray raw ts := by
  have hsound := (Bool.and_eq_true_iff.1 (isGrammatical_of_spells hraw)).2
  have hread (f : FrameFields) : Json.decode FrameFields.record.codec raw = .ok f ↔
      FrameFields.record.IsRow memberLevels ts f := by
    rw [decode_of_spells FrameFields.record.codec hraw]
    exact Record.read_eq_ok_iff_isRow hsound hts
  constructor
  · intro f hf
    obtain ⟨hlt, hle⟩ := hf.length_mem (i := 9) rfl rfl
    exact ⟨Nat.le_antisymm hle hlt, classified_of_decode ((hread f).2 hf)⟩
  · intro hbad
    cases hdecode : Json.decode FrameFields.record.codec raw with
    | ok f => exact absurd ((hread f).1 hdecode) (hbad f)
    | error fault =>
      refine ⟨fault, ?_⟩
      rw [decode, read, hdecode]
      rfl

end Envelope

/-! ### Payloads -/

namespace Push

variable {p : Push} {payload : Node}

section

variable {α : Type} {record : Record α} {levels : Nat} {t : Node}

theorem isGrammatical_of_mem {ts : List Node} (ht : t.isGrammatical = true)
    (hts : t.list? = some ts) : ∀ v ∈ ts, v.isGrammatical = true := by
  cases t with
  | array es ending =>
    obtain rfl := Option.some.inj hts
    exact List.forall_mem_map.2 fun e he => (((isGrammatical_array es ending).1 ht).1 e he).value
  | _ => cases hts

theorem isSound_of_isGrammatical (ht : t.isGrammatical = true) : t.isSound = true :=
  (Bool.and_eq_true_iff.1 ht).2

theorem read_of_isRowOf (ht : t.isGrammatical = true) {a : α} (h : IsRowOf record levels t a) :
    record.codec.read (levels + 1) t = .ok a := by
  obtain ⟨ts, hts, hrow⟩ := h
  exact (Record.read_eq_ok_iff_isRow (isSound_of_isGrammatical ht) hts).2 hrow

theorem not_read_of_isNoRowOf (ht : t.isGrammatical = true) (h : IsNoRowOf record levels t)
    (a : α) : record.codec.read (levels + 1) t ≠ .ok a := by
  obtain ⟨ts, hts, hbad⟩ := h
  exact fun hread => hbad a
    ((Record.read_eq_ok_iff_isRow (isSound_of_isGrammatical ht) hts).1 hread)

/-- Rows of a record that an array lists are read as the list of their values. -/
theorem list_read_of_rows (ht : t.isGrammatical = true) {xs : List α}
    (h : t.Lists (IsRowOf record levels) xs) :
    (Codec.list record.codec).read (levels + 2) t = .ok xs := by
  obtain ⟨vs, hvs, hrows⟩ := h
  have hmem := isGrammatical_of_mem ht hvs
  have hread := ((List.forall₂_and_left vs xs).2 ⟨hmem, hrows⟩).imp
    fun v x hv => read_of_isRowOf hv.1 hv.2
  cases t with
  | array es ending =>
    obtain rfl := Option.some.inj hvs
    rw [List.forall₂_map_left_iff] at hread
    obtain ⟨gap, rfl, _⟩ := ((isGrammatical_array es ending).1 ht).2
    exact Outcome.bind_eq_ok_iff.2 ⟨xs, Outcome.mapM_eq_ok_iff.2 hread,
      Outcome.bind_eq_ok_iff.2 ⟨(), Ending.check_eq_ok_iff.2 rfl, rfl⟩⟩
  | _ => cases hvs

/-- No list is read from an array with an element that is an array and no row. -/
theorem not_list_read (ht : t.isGrammatical = true) {ts : List Node} (hts : t.list? = some ts)
    {v : Node} (hv : v ∈ ts) (hbad : IsNoRowOf record levels v) (xs : List α) :
    (Codec.list record.codec).read (levels + 2) t ≠ .ok xs := by
  intro hread
  refine Codec.not_misreads (Codec.lists_of_read (levels + 1) hread) ⟨ts, hts, v, hv, fun a => ?_⟩
  exact not_read_of_isNoRowOf (isGrammatical_of_mem ht hts v hv) hbad a

end

theorem event_of_hasRows (hpayload : Spells (octets p.payload) payload) {event : Event}
    (h : p.HasRows payload event) : p.event = .ok event := by
  have htree := isGrammatical_of_spells hpayload
  refine event_eq_ok_iff.2 ?_
  cases h with
  | book htype hrow =>
    refine .book htype ?_
    rw [decode_of_spells BookPayload.codec hpayload]
    exact read_of_isRowOf htree hrow
  | candles htype hsymbol hne hrows =>
    refine .candles htype hsymbol ?_ hne
    rw [decode_of_spells (.list Candle.codec) hpayload]
    exact list_read_of_rows htree hrows
  | wallets htype hrows =>
    refine .wallets htype ?_
    rw [decode_of_spells (.list Wallet.codec) hpayload]
    exact list_read_of_rows htree hrows

/-- A push does not yield an event where one array is no row of the record it stands for. -/
theorem not_yields_of_hasNoRow (hpayload : Spells (octets p.payload) payload)
    (h : p.HasNoRow payload) (event : Event) : ¬p.Yields event := by
  have htree := isGrammatical_of_spells hpayload
  intro hyields
  cases h with
  | book htype hbad =>
    cases hyields with
    | book _ hread =>
      rw [decode_of_spells BookPayload.codec hpayload] at hread
      exact not_read_of_isNoRowOf htree hbad _ hread
    | candles htype' | orders htype' | wallets htype' => cases htype.symm.trans htype'
  | candle htype hts ht hbad =>
    cases hyields with
    | candles _ _ hread =>
      rw [decode_of_spells (.list Candle.codec) hpayload] at hread
      exact not_list_read htree hts ht hbad _ hread
    | book htype' | orders htype' | wallets htype' => cases htype.symm.trans htype'
  | wallet htype hts ht hbad =>
    cases hyields with
    | wallets _ hread =>
      rw [decode_of_spells (.list Wallet.codec) hpayload] at hread
      exact not_list_read htree hts ht hbad _ hread
    | book htype' | candles htype' | orders htype' => cases htype.symm.trans htype'
  | @coin ts cs t coins c htype hts ht hcoins hcs hc hbad =>
    cases hyields with
    | wallets _ hread =>
      rw [decode_of_spells (.list Wallet.codec) hpayload] at hread
      obtain ⟨ts', hts', hreads⟩ := Codec.lists_of_read (allLevels - 1) hread
      obtain rfl := Option.some.inj (hts.symm.trans hts')
      obtain ⟨w, _, hw⟩ := Outcome.exists_of_forall₂ hreads ht
      -- The balances of the wallet are read from a value that lists the array.
      rcases Wallet.hasCoins_of_read hw with ⟨hnone, _⟩ | ⟨coins', hcoins', hlists⟩
      · rw [field?, hnone] at hcoins
        cases hcoins
      · obtain rfl := Option.some.inj (hcoins.symm.trans hcoins')
        have hwallet := isGrammatical_of_mem htree hts t ht
        have hcoin := isGrammatical_of_mem (isGrammatical_of_field? hwallet hcoins) hcs c hc
        refine Codec.not_misreads hlists ⟨cs, hcs, c, hc, fun b => ?_⟩
        exact not_read_of_isNoRowOf hcoin hbad b
    | book htype' | candles htype' | orders htype' => cases htype.symm.trans htype'

theorem payload_of_hasNoRow (hpayload : Spells (octets p.payload) payload)
    (h : p.HasNoRow payload)
    (hsymbol : p.topicType = .kline → ∃ symbol, Topic.symbol? p.topic = some symbol) :
    ∃ fault, p.event = .error (.payload p.topicType p.payload fault) := by
  have hknown : p.topicType.isKnown = true := by
    cases h with
    | book htype | candle htype | wallet htype | coin htype =>
      rw [htype]
      rfl
  exact payload_of_not_yields hknown hsymbol (not_yields_of_hasNoRow hpayload h)

theorem judgesArrays (hpayload : Spells (octets p.payload) payload) : p.JudgesArrays payload where
  rows _ := event_of_hasRows hpayload
  other := payload_of_hasNoRow hpayload
  lengths _ _ := by
    refine ⟨fun b hb => ?_, fun c hc => ?_, fun w hw => ?_, fun b hb => ?_⟩
    · obtain ⟨hlt, hle⟩ := hb.length_mem (i := 4) rfl rfl
      exact Nat.le_antisymm hle hlt
    · obtain ⟨hlt, hle⟩ := hc.length_mem (i := 10) rfl rfl
      exact Nat.le_antisymm hle hlt
    · exact hw.length_mem (i := 0) rfl rfl
    · exact hb.length_mem (i := 0) rfl rfl

end Push

/-! ### Frames and payloads -/

/-- An array is taken for a frame, an order book, a candle, a wallet or a balance exactly if it is a
row of that record. -/
theorem arrays_judged {raw : List UInt8} {frame : Node} {ts : List Node} {p : Push} {payload : Node}
    (hraw : Spells raw frame) (hts : frame.list? = some ts)
    (hpayload : Spells (octets p.payload) payload) :
    Envelope.JudgesArray raw ts ∧ p.JudgesArrays payload :=
  ⟨Envelope.judgesArray hraw hts, Push.judgesArrays hpayload⟩

/-- The values of the fields of an authentication that has succeeded. -/
def authValues : List Node :=
  [.bool true, ofString "", .null, ofString "c", ofString "auth", .null, .null, .null, .null, .null]

/-- A payload that lists an array with the type of an account. -/
def bareWallet : Node := ofList [ofList [ofString "UNIFIED"]]

/-- The push of that payload. -/
def bareWalletPush : Push where
  topic := TopicType.wallet.text
  kind := .snapshot
  timestamp := 0
  payload := textOf bareWallet.text

theorem spells_bareWallet : Spells (octets bareWalletPush.payload) bareWallet :=
  IsPlain.spells ⟨by decide +kernel, Utf8.isText_of_ascii (by decide +kernel)⟩

theorem arrays_judged_authValues :
    Envelope.JudgesArray (ofList authValues).text authValues ∧
      bareWalletPush.JudgesArrays bareWallet :=
  arrays_judged (spells_text (by decide)) (list?_ofList authValues) spells_bareWallet

/-- An array passes for an authentication that is accepted, and another one for a wallet without any
money in it. -/
theorem arrays_pass_for_objects :
    (∃ a, (ofList authValues).list? = some authValues ∧
      Envelope.decode (ofList authValues).text = .ok (.acknowledgement a) ∧ a.op = .auth ∧
      a.isAccepted = true) ∧
    ∃ w, bareWallet.list? = some [ofList [ofString "UNIFIED"]] ∧
      bareWalletPush.event = .ok (.wallets [w]) ∧ w.accountType = "UNIFIED" ∧
      w.totalEquity = .zero ∧ w.totalAvailableBalance = .zero ∧ w.coins = [] := by
  constructor
  · have hrow : FrameFields.record.IsRow memberLevels authValues
        ⟨some true, some "", none, some "c", some .auth, none, none, none, none, none⟩ :=
      ⟨(some true, some "", none, some "c", some .auth, none, none, none, none, none, ()),
        ⟨rfl, rfl, rfl, rfl, rfl, rfl, rfl, rfl, rfl, rfl, rfl⟩, rfl⟩
    have hclassified := (Envelope.judgesArray (spells_text (by decide))
      (list?_ofList authValues)).row _ hrow
    refine ⟨⟨.auth, true, "", "c", none, []⟩, list?_ofList authValues, ?_, rfl, by decide⟩
    exact (hclassified.2.acknowledgement _).2 ⟨.inl nofun, nofun, rfl⟩
  · have hrow : Wallet.record.IsRow (allLevels - 2) [ofString "UNIFIED"]
        ⟨"UNIFIED", .zero, .zero, .zero, .zero, .zero, .zero, .zero, .zero, .zero, []⟩ :=
      ⟨("UNIFIED", .zero, .zero, .zero, .zero, .zero, .zero, .zero, .zero, .zero, [], ()),
        ⟨rfl, rfl, rfl, rfl, rfl, rfl, rfl, rfl, rfl, rfl, rfl, rfl⟩, rfl⟩
    have hrows := (Push.judgesArrays spells_bareWallet).rows _
      (.wallets (by decide) ⟨_, list?_ofList _, .cons ⟨_, list?_ofList _, hrow⟩ .nil⟩)
    exact ⟨_, list?_ofList _, hrows, rfl, rfl, rfl, rfl⟩

end MarketFeed
