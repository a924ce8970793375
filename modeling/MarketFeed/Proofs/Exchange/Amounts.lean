import MarketFeed.Proofs.Exchange.Report
import MarketFeed.Proofs.Exchange.Routing
import MarketFeed.Proofs.Json.Clearing

/-!
# Amounts that are left open

The exchange leaves open the amounts that an account does not use: they are missing, null, blank or
zero.  However an amount of an order, a wallet or a balance is left open, it is zero and everything
else in the record is as it was (`Json.Codec.ClearsTo`).  Any other text is read as a strict decimal
is, and a payload with a value that means no amount is refused as a whole (`Push.HasNoAmount`).
-/

namespace MarketFeed

open Json Json.Node

/-- A record is read with zeros for those of its amounts that are left open, and is otherwise the
same. -/
def Json.Codec.ClearsTo {α : Type} (codec : Codec α) (amounts : List String)
    (clear : List String → α → α) : Prop :=
  ∀ levels keys ms ms' ending a, keys ⊆ amounts → Clears keys ms ms' →
    codec.read levels (object ms ending) = .ok a →
    codec.read levels (object ms' ending) = .ok (clear keys a)

/-- The keys of the amounts of an order. -/
def Order.amounts : List String := ["price", "qty", "avgPrice", "leavesQty", "leavesValue",
  "cumExecQty", "cumExecValue", "cumExecFee", "triggerPrice", "takeProfit", "stopLoss"]

/-- An order with zeros for the amounts with the given keys. -/
def Order.clear (keys : List String) (o : Order) : Order :=
  { o with
    price := o.price.clearedAt keys "price"
    qty := o.qty.clearedAt keys "qty"
    avgPrice := o.avgPrice.clearedAt keys "avgPrice"
    leavesQty := o.leavesQty.clearedAt keys "leavesQty"
    leavesValue := o.leavesValue.clearedAt keys "leavesValue"
    cumExecQty := o.cumExecQty.clearedAt keys "cumExecQty"
    cumExecValue := o.cumExecValue.clearedAt keys "cumExecValue"
    cumExecFee := o.cumExecFee.clearedAt keys "cumExecFee"
    triggerPrice := o.triggerPrice.clearedAt keys "triggerPrice"
    takeProfit := o.takeProfit.clearedAt keys "takeProfit"
    stopLoss := o.stopLoss.clearedAt keys "stopLoss" }

/-- A report with zeros for the amounts of its order with the given keys. -/
def OrderReport.clear (keys : List String) (r : OrderReport) : OrderReport :=
  { r with order := r.order.clear keys }

/-- The keys of the amounts of a balance. -/
def CoinBalance.amounts : List String := ["equity", "usdValue", "walletBalance",
  "availableToWithdraw", "borrowAmount", "accruedInterest", "totalOrderIM", "totalPositionIM",
  "totalPositionMM", "unrealisedPnl", "cumRealisedPnl", "locked"]

/-- A balance with zeros for the amounts with the given keys. -/
def CoinBalance.clear (keys : List String) (c : CoinBalance) : CoinBalance :=
  { c with
    equity := c.equity.clearedAt keys "equity"
    usdValue := c.usdValue.clearedAt keys "usdValue"
    walletBalance := c.walletBalance.clearedAt keys "walletBalance"
    availableToWithdraw := c.availableToWithdraw.clearedAt keys "availableToWithdraw"
    borrowAmount := c.borrowAmount.clearedAt keys "borrowAmount"
    accruedInterest := c.accruedInterest.clearedAt keys "accruedInterest"
    totalOrderIm := c.totalOrderIm.clearedAt keys "totalOrderIM"
    totalPositionIm := c.totalPositionIm.clearedAt keys "totalPositionIM"
    totalPositionMm := c.totalPositionMm.clearedAt keys "totalPositionMM"
    unrealisedPnl := c.unrealisedPnl.clearedAt keys "unrealisedPnl"
    cumRealisedPnl := c.cumRealisedPnl.clearedAt keys "cumRealisedPnl"
    locked := c.locked.clearedAt keys "locked" }

/-- The keys of the amounts of a wallet. -/
def Wallet.amounts : List String := ["accountIMRate", "accountMMRate", "totalEquity",
  "totalWalletBalance", "totalMarginBalance", "totalAvailableBalance", "totalPerpUPL",
  "totalInitialMargin", "totalMaintenanceMargin"]

/-- A wallet with zeros for the amounts with the given keys. -/
def Wallet.clear (keys : List String) (w : Wallet) : Wallet :=
  { w with
    accountImRate := w.accountImRate.clearedAt keys "accountIMRate"
    accountMmRate := w.accountMmRate.clearedAt keys "accountMMRate"
    totalEquity := w.totalEquity.clearedAt keys "totalEquity"
    totalWalletBalance := w.totalWalletBalance.clearedAt keys "totalWalletBalance"
    totalMarginBalance := w.totalMarginBalance.clearedAt keys "totalMarginBalance"
    totalAvailableBalance := w.totalAvailableBalance.clearedAt keys "totalAvailableBalance"
    totalPerpUpl := w.totalPerpUpl.clearedAt keys "totalPerpUPL"
    totalInitialMargin := w.totalInitialMargin.clearedAt keys "totalInitialMargin"
    totalMaintenanceMargin := w.totalMaintenanceMargin.clearedAt keys "totalMaintenanceMargin" }

/-! ### Records -/

section

variable {levels : Nat} {keys : List String} {ms ms' : List (Entry Node)} {ending : Ending}

/-- A field that is no amount is as it was. -/
theorem holds_other {amounts : List String} (hkeys : keys ⊆ amounts) (h : Clears keys ms ms')
    {f : Json.Field} (hf : ∀ key ∈ f.keys, key ∉ amounts) {x : f.Carrier}
    (hx : f.Holds levels (valuesNamed f.keys ms) x) :
    f.Holds levels (valuesNamed f.keys ms') x :=
  holds_kept h (fun _ hkey hfield => hf _ hfield (hkeys hkey)) hx

/-- Another object is read as the same record with zeros if it has the values of that. -/
theorem read_cleared {α : Type} {record : Record α} {amounts : List String}
    (hnodup : (record.fields.flatMap Field.keys).Nodup)
    (hamounts : amounts ⊆ record.fields.flatMap Field.keys) {clear : List String → α → α}
    (hclear : ∀ {levels keys ms ms' ending xs}, keys ⊆ amounts → Clears keys ms ms' →
      Values.Hold levels (object ms ending) record.fields 0 xs →
      ∃ ys, Values.Hold levels (object ms' ending) record.fields 0 ys ∧
        record.ofValues ys = clear keys (record.ofValues xs)) :
    record.codec.ClearsTo amounts clear := by
  intro levels keys ms ms' ending a hkeys h hread
  cases levels with
  | zero => cases hread
  | succ levels =>
    obtain ⟨hending, hms, xs, hxs, rfl⟩ := (Record.read_object_iff hnodup).1 hread
    obtain ⟨ys, hys, hsame⟩ := hclear hkeys h hxs
    refine (Record.read_object_iff hnodup).2 ⟨hending, fun m hm => ?_, ys, hys, hsame⟩
    cases hnamed : m.isNamed (record.fields.flatMap Field.keys) with
    | true => exact Or.inl rfl
    | false =>
      have hold := h.mem hm (Entry.isNamed_of_subset (List.Subset.trans hkeys hamounts) hnamed)
      rw [← hnamed]
      exact hms m hold

theorem Order.hold_clear (hkeys : keys ⊆ amounts) (h : Clears keys ms ms') {o : Order}
    (ho : Values.Hold levels (object ms ending) record.fields 0 (record.toValues o)) :
    Values.Hold levels (object ms' ending) record.fields 0 (record.toValues (o.clear keys)) := by
  obtain ⟨h₁, h₂, h₃, h₄, h₅, h₆, h₇, h₈, h₉, h₁₀, h₁₁, h₁₂, h₁₃, h₁₄, h₁₅, h₁₆, h₁₇, h₁₈, h₁₉, h₂₀,
    h₂₁, h₂₂, h₂₃, h₂₄, h₂₅, h₂₆, _⟩ := ho
  exact ⟨holds_other hkeys h (by decide) h₁, holds_other hkeys h (by decide) h₂,
    holds_other hkeys h (by decide) h₃, holds_other hkeys h (by decide) h₄,
    holds_other hkeys h (by decide) h₅, holds_other hkeys h (by decide) h₆,
    holds_other hkeys h (by decide) h₇, holds_cleared h h₈, holds_cleared h h₉,
    holds_cleared h h₁₀, holds_cleared h h₁₁, holds_cleared h h₁₂, holds_cleared h h₁₃,
    holds_cleared h h₁₄, holds_cleared h h₁₅, holds_cleared h h₁₆, holds_cleared h h₁₇,
    holds_cleared h h₁₈, holds_other hkeys h (by decide) h₁₉, holds_other hkeys h (by decide) h₂₀,
    holds_other hkeys h (by decide) h₂₁, holds_other hkeys h (by decide) h₂₂,
    holds_other hkeys h (by decide) h₂₃, holds_other hkeys h (by decide) h₂₄,
    holds_other hkeys h (by decide) h₂₅, holds_other hkeys h (by decide) h₂₆, trivial⟩

theorem CoinBalance.hold_clear (hkeys : keys ⊆ amounts) (h : Clears keys ms ms') {c : CoinBalance}
    (hc : Values.Hold levels (object ms ending) record.fields 0 (record.toValues c)) :
    Values.Hold levels (object ms' ending) record.fields 0 (record.toValues (c.clear keys)) := by
  obtain ⟨h₁, h₂, h₃, h₄, h₅, h₆, h₇, h₈, h₉, h₁₀, h₁₁, h₁₂, h₁₃, h₁₄, h₁₅, _⟩ := hc
  exact ⟨holds_other hkeys h (by decide) h₁, holds_cleared h h₂, holds_cleared h h₃,
    holds_cleared h h₄, holds_cleared h h₅, holds_cleared h h₆, holds_cleared h h₇,
    holds_cleared h h₈, holds_cleared h h₉, holds_cleared h h₁₀, holds_cleared h h₁₁,
    holds_cleared h h₁₂, holds_cleared h h₁₃, holds_other hkeys h (by decide) h₁₄,
    holds_other hkeys h (by decide) h₁₅, trivial⟩

theorem Wallet.hold_clear (hkeys : keys ⊆ amounts) (h : Clears keys ms ms') {w : Wallet}
    (hw : Values.Hold levels (object ms ending) record.fields 0 (record.toValues w)) :
    Values.Hold levels (object ms' ending) record.fields 0 (record.toValues (w.clear keys)) := by
  obtain ⟨h₁, h₂, h₃, h₄, h₅, h₆, h₇, h₈, h₉, h₁₀, h₁₁, _⟩ := hw
  exact ⟨holds_other hkeys h (by decide) h₁, holds_cleared h h₂, holds_cleared h h₃,
    holds_cleared h h₄, holds_cleared h h₅, holds_cleared h h₆, holds_cleared h h₇,
    holds_cleared h h₈, holds_cleared h h₉, holds_cleared h h₁₀,
    holds_other hkeys h (by decide) h₁₁, trivial⟩

end

theorem Order.clearsTo : codec.ClearsTo amounts clear :=
  read_cleared nodup_keys (by decide) fun {_ _ _ _ _ xs} hkeys h hxs =>
    ⟨_, hold_clear (o := record.ofValues xs) hkeys h hxs, rfl⟩

theorem CoinBalance.clearsTo : codec.ClearsTo amounts clear :=
  read_cleared nodup_keys (by decide) fun {_ _ _ _ _ xs} hkeys h hxs =>
    ⟨_, hold_clear (c := record.ofValues xs) hkeys h hxs, rfl⟩

theorem Wallet.clearsTo : codec.ClearsTo amounts clear :=
  read_cleared nodup_keys (by decide) fun {_ _ _ _ _ xs} hkeys h hxs =>
    ⟨_, hold_clear (w := record.ofValues xs) hkeys h hxs, rfl⟩

/-- The members of an order that a report keeps are read, or are as they were. -/
theorem OrderReport.clearsTo : codec.ClearsTo Order.amounts clear := by
  intro levels keys ms ms' ending r hkeys h hread
  change read levels (object ms ending) = .ok r at hread
  cases levels with
  | zero => cases hread
  | succ levels =>
    obtain ⟨hending, hothers, hcategory, hhold⟩ := read_object_iff.1 hread
    have hhold' := Order.hold_clear hkeys h hhold
    refine read_object_iff.2 ⟨hending, fun m hm => ?_, ?_, hhold'⟩
    · obtain ⟨hm, hother⟩ := List.mem_filter.1 hm
      cases hlisted : m.isNamed (Order.record.fields.flatMap Field.keys) with
      | true => exact kept_of_hold Order.agrees_fields hhold' hm hlisted
      | false =>
        have hsub : keys ⊆ Order.record.fields.flatMap Field.keys :=
          List.Subset.trans hkeys (by decide)
        have hold := h.mem hm (Entry.isNamed_of_subset hsub hlisted)
        exact hothers m (List.mem_filter.2 ⟨hold, hother⟩)
    · exact holds_other hkeys h (by decide) hcategory

/-! ### Payloads -/

/-- A tree has, for an amount of a record, a value that means none. -/
def Json.Record.HasNoAmount {α : Type} (record : Record α) (t : Node) : Prop :=
  ∃ i label key v, record.fields[i]? = some (.amount label key) ∧ v ∈ t.fieldValues [key] i ∧
    v.MeansNoAmount

/-- The payload of a push lists an order, a wallet or a balance with a value that means no
amount. -/
inductive Push.HasNoAmount (p : Push) (payload : Node) : Prop
  | order {ts : List Node} {t : Node} (htype : p.topicType = .order)
    (hts : payload.list? = some ts) (ht : t ∈ ts) (hbad : Order.record.HasNoAmount t)
  | wallet {ts : List Node} {t : Node} (htype : p.topicType = .wallet)
    (hts : payload.list? = some ts) (ht : t ∈ ts) (hbad : Wallet.record.HasNoAmount t)
  | coin {ts cs : List Node} {t coins c : Node} (htype : p.topicType = .wallet)
    (hts : payload.list? = some ts) (ht : t ∈ ts) (hcoins : t.field? ["coin"] 10 = some coins)
    (hcs : coins.list? = some cs) (hc : c ∈ cs) (hbad : CoinBalance.record.HasNoAmount c)

theorem Json.Record.not_hold {α : Type} {record : Record α} {t : Node} (h : record.HasNoAmount t)
    (levels : Nat) (xs : Values record.fields) : ¬Values.Hold levels t record.fields 0 xs := by
  intro hhold
  obtain ⟨i, label, key, v, hf, hv, hbad⟩ := h
  obtain ⟨ref, rfl⟩ := FieldRef.exists_of_getElem? hf
  rw [← Nat.zero_add ref.index] at hv
  exact Codec.looseDecimal_read_ne hbad _ ((ref.holds_get hhold).read_of_mem hv)

theorem Json.Record.not_read {α : Type} {record : Record α}
    (hnodup : (record.fields.flatMap Field.keys).Nodup) {t : Node} (h : record.HasNoAmount t)
    (levels : Nat) (a : α) : record.codec.read levels t ≠ .ok a := by
  intro hread
  obtain ⟨_, xs, _, hxs, _⟩ := Record.hold_of_read hnodup hread
  exact Record.not_hold h _ xs hxs

theorem OrderReport.not_read {t : Node} (h : Order.record.HasNoAmount t) (levels : Nat)
    (r : OrderReport) : codec.read levels t ≠ .ok r := by
  intro hread
  change read levels t = .ok r at hread
  cases t with
  | object ms ending =>
    cases levels with
    | zero => cases hread
    | succ levels =>
      obtain ⟨_, _, _, hhold⟩ := read_object_iff.1 hread
      exact Record.not_hold h levels _ hhold
  | _ => cases levels <;> cases hread

namespace Push

variable {p : Push} {payload : Node}

theorem not_yields_of_hasNoAmount (hpayload : Spells (octets p.payload) payload)
    (h : p.HasNoAmount payload) (event : Event) : ¬p.Yields event := by
  intro hyields
  have htype := isOfType_of_yields hyields
  refine not_carries ?_ htype (carries_of_yields hpayload hyields)
  have hfirst {target : TopicType} (hknown : target.isKnown = true) (h : p.topicType = target) :
      Topic.first p.topic = target.text := (topicType_eq_iff hknown).1 h
  cases h with
  | order htype hts ht hbad =>
    exact .order (hfirst rfl htype) ⟨_, hts, _, ht, OrderReport.not_read hbad _⟩
  | wallet htype hts ht hbad =>
    exact .wallet (hfirst rfl htype) ⟨_, hts, _, ht, Record.not_read Wallet.nodup_keys hbad _⟩
  | coin htype hts ht hcoins hcs hc hbad =>
    exact .coin (hfirst rfl htype) hts ht hcoins
      ⟨_, hcs, _, hc, Record.not_read CoinBalance.nodup_keys hbad _⟩

theorem payload_of_hasNoAmount (hpayload : Spells (octets p.payload) payload)
    (h : p.HasNoAmount payload) :
    ∃ fault, p.event = .error (.payload p.topicType p.payload fault) := by
  have htype : p.topicType = .order ∨ p.topicType = .wallet := by
    cases h with
    | order htype => exact Or.inl htype
    | wallet htype | coin htype => exact Or.inr htype
  refine payload_of_not_yields ?_ ?_ (not_yields_of_hasNoAmount hpayload h)
  · obtain htype | htype := htype <;> rw [htype] <;> rfl
  · intro hkline
    obtain htype | htype := htype <;> cases htype.symm.trans hkline

end Push

/-- However amounts of an order, a report, a wallet or a balance are left open, they are zero and
the record is otherwise the same.  From any text that is not blank an amount is read as a strict
decimal is, from what means no amount nothing is read, and then the payload is to blame.  What is no
amount means none, unless it is an object that wraps a text: then it is read as what that spells. -/
theorem open_amounts_are_zero (levels : Nat) (v : Node) :
    (Order.codec.ClearsTo Order.amounts Order.clear ∧
      OrderReport.codec.ClearsTo Order.amounts OrderReport.clear ∧
      Wallet.codec.ClearsTo Wallet.amounts Wallet.clear ∧
      CoinBalance.codec.ClearsTo CoinBalance.amounts CoinBalance.clear) ∧
    (∀ s d, v.string? = some s → ¬Text.AreBlank s.toList →
      (Codec.looseDecimal.read levels v = .ok d ↔ Codec.decimal.read levels v = .ok d)) ∧
    (∀ d, v.MeansNoAmount → Codec.looseDecimal.read levels v ≠ .ok d) ∧
    (∀ (p : Push) payload, Spells (octets p.payload) payload → p.HasNoAmount payload →
      ∃ fault, p.event = .error (.payload p.topicType p.payload fault)) ∧
    (v.IsNoAmount → (∀ s, ¬v.Wraps s) → v.MeansNoAmount) ∧
    ∀ s d, v.Wraps s → (Codec.looseDecimal.read (levels + 1) v = .ok d ↔
      ∃ u, Spells (octets s) u ∧ Codec.looseDecimal.read allLevels u = .ok d) := by
  refine ⟨⟨Order.clearsTo, OrderReport.clearsTo, Wallet.clearsTo, CoinBalance.clearsTo⟩,
    fun s d hs hblank => ?_, fun d h => Codec.looseDecimal_read_ne h d,
    fun _ _ => Push.payload_of_hasNoAmount, IsNoAmount.means,
    fun _ _ hwraps => Codec.looseDecimal_read_wraps hwraps⟩
  obtain ⟨body, rfl, hbody⟩ := exists_of_string? hs
  exact Codec.looseDecimal_read_iff hbody hblank

/-- The members of a wallet with some equity and a loss. -/
def fundedMembers : List (Entry Node) := [
  member "accountType" (ofString "UNIFIED"),
  member "totalEquity" (ofString "1.50"),
  member "totalPerpUPL" (ofString "-2")]

/-- The members of a wallet with its equity missing and a blank for its loss. -/
def openMembers : List (Entry Node) := [
  member "totalPerpUPL" (ofString "\u2003"),
  member "accountType" (ofString "UNIFIED")]

/-- The wallet that has no amounts. -/
def emptyWallet : Wallet :=
  ⟨"UNIFIED", .zero, .zero, .zero, .zero, .zero, .zero, .zero, .zero, .zero, []⟩

/-- A payload that lists a wallet with a value for its equity. -/
def walletWith (equity : Node) : Node :=
  ofList [ofPairs [("accountType", ofString "UNIFIED"), ("totalEquity", equity)]]

/-- The push of that payload. -/
def pushWith (equity : Node) : Push where
  topic := TopicType.wallet.text
  kind := .snapshot
  timestamp := 0
  payload := textOf (walletWith equity).text

theorem clears_openMembers :
    Clears ["totalEquity", "totalPerpUPL"] fundedMembers openMembers where
  others := rfl
  cleared := by
    simp only [List.forall_mem_cons]
    refine ⟨Or.inl rfl, Or.inr ⟨_, rfl, Or.inr ⟨_, string?_ofString _, Or.inl ?_⟩⟩,
      List.forall_mem_nil _⟩
    exact List.all_eq_true.1 (by decide)

theorem hasNoAmount_flag : (pushWith (.bool false)).HasNoAmount (walletWith (.bool false)) :=
  .wallet (by decide) (list?_ofList _) List.mem_cons_self
    ⟨3, "total_equity", "totalEquity", .bool false, rfl, List.mem_cons_self,
      IsNoAmount.means trivial nofun⟩

theorem open_amounts_are_zero_wallet :
    Wallet.codec.read allLevels (ofMembers openMembers) = .ok emptyWallet ∧
      ∃ fault, (pushWith (.bool false)).event =
        .error (.payload .wallet (pushWith (.bool false)).payload fault) := by
  obtain ⟨⟨_, _, hwallet, _⟩, _, _, hpayload, _⟩ := open_amounts_are_zero allLevels (.bool false)
  constructor
  · have hread : Wallet.codec.read allLevels (ofMembers fundedMembers) =
        .ok { emptyWallet with
          totalEquity := ⟨false, 150, 2, by decide, by decide⟩
          totalPerpUpl := ⟨true, 2, 0, by decide, by decide⟩ } := by
      decide +kernel
    exact hwallet _ _ _ _ _ _ (by decide) clears_openMembers hread
  · have hspells : Spells (octets (pushWith (.bool false)).payload) (walletWith (.bool false)) :=
      (isPlain_ofList (by simp [isPlain_ofPairs])).spells
    exact hpayload _ _ hspells hasNoAmount_flag

/-- Objects are read as amounts, and a wallet with such a value has a zero in its place. -/
theorem objects_read_as_amounts :
    (wrap "null").IsNoAmount ∧ Codec.looseDecimal.read allLevels (wrap "null") = .ok .zero ∧
      (wrap "1.5").IsNoAmount ∧
      Codec.looseDecimal.read allLevels (wrap "1.5") = .ok ⟨false, 15, 1, by decide, by decide⟩ ∧
      (pushWith (wrap "null")).event = .ok (.wallets [emptyWallet]) := by
  refine ⟨trivial, ?_, trivial, ?_, ?_⟩
  · decide +kernel
  · decide +kernel
  · decide +kernel

end MarketFeed
