import MarketFeed.Exchange.Event
import MarketFeed.Proofs.Exchange.Report
import MarketFeed.Proofs.Json.Layout

/-!
# Payloads by content

The payload of a push is read by its content (`Push.event_alike`): blanks, the order of the members
of records and further members of no field make no difference to the event, nor to the kind of the
error where there is none.
-/

namespace MarketFeed

open Json Json.Node

/-! ### Order books -/

namespace PriceLevel

theorem ignoresBlanks_fields : ∀ f ∈ fields, f.codec.IgnoresBlanks := by
  simp only [fields, List.forall_mem_cons]
  exact ⟨Codec.ignoresBlanks_decimal, Codec.ignoresBlanks_decimal, List.forall_mem_nil _⟩

theorem readsSound_fields : ∀ f ∈ fields, f.codec.ReadsSound := by
  simp only [fields, List.forall_mem_cons]
  exact ⟨Codec.readsSound_decimal, Codec.readsSound_decimal, List.forall_mem_nil _⟩

theorem goesByContent : codec.GoesByContent .plain := by
  refine Codec.goesByContent_plain (fun levels t l ht h => ?_) fun levels t => ?_
  · change read levels t = .ok l at h
    cases t with
    | array es ending =>
      cases levels with
      | zero => cases h
      | succ levels =>
        obtain ⟨values, hvalues, _⟩ := Outcome.map_eq_ok_iff.1 h
        obtain ⟨hes, hending⟩ := sound_of_ofElements readsSound_fields
          (fun _ he => isSpelled_element ht he) hvalues
        exact isSound_of_all_elements hes hending
    | _ => cases levels <;> cases h
  · change read levels t.bare = read levels t
    cases t with
    | array es ending =>
      cases levels with
      | zero => rw [bare, read, read]
      | succ levels =>
        rw [bare, bareElements_eq, read, read, ofElements_bare ignoresBlanks_fields]
    | object ms ending => cases levels <;> rw [bare] <;> rfl
    | _ => cases levels <;> rfl

end PriceLevel

namespace BookPayload

/-- The payload of an order book push is a record. -/
def shape : Shape := .record (record.fields.map Field.key) fun _ => .plain

theorem goesByContent : codec.GoesByContent shape := by
  have hlevels := (PriceLevel.goesByContent.list).plain
  refine Record.goesByContent nodup_keys (by decide) ?_
  simp only [record, List.forall_mem_cons]
  exact ⟨Codec.goesByContent_text, hlevels, hlevels, Codec.goesByContent_word,
    Codec.goesByContent_word, List.forall_mem_nil _⟩

end BookPayload

/-! ### Candles -/

namespace Candle

/-- A candle is a record. -/
def shape : Shape := .record (record.fields.map Field.key) fun _ => .plain

theorem goesByContent : codec.GoesByContent shape := by
  refine Record.goesByContent nodup_keys (by decide) ?_
  simp only [record, List.forall_mem_cons]
  exact ⟨Codec.goesByContent_word, Codec.goesByContent_word, Codec.goesByContent_text,
    Codec.goesByContent_decimal, Codec.goesByContent_decimal, Codec.goesByContent_decimal,
    Codec.goesByContent_decimal, Codec.goesByContent_decimal, Codec.goesByContent_decimal,
    Codec.goesByContent_flag, Codec.goesByContent_word, List.forall_mem_nil _⟩

end Candle

/-! ### Wallets -/

theorem Json.Field.goesByContent_amount (label key : String) :
    (Field.amount label key).codec.GoesByContent .plain := Codec.goesByContent_looseDecimal

namespace CoinBalance

/-- A balance is a record. -/
def shape : Shape := .record (record.fields.map Field.key) fun _ => .plain

theorem goesByContent : codec.GoesByContent shape := by
  refine Record.goesByContent nodup_keys (by decide) ?_
  have hamount := Field.goesByContent_amount
  simp only [record, List.forall_mem_cons]
  exact ⟨Codec.goesByContent_text, hamount _ _, hamount _ _, hamount _ _, hamount _ _,
    hamount _ _, hamount _ _, hamount _ _, hamount _ _, hamount _ _, hamount _ _, hamount _ _,
    hamount _ _, Codec.goesByContent_flag, Codec.goesByContent_flag, List.forall_mem_nil _⟩

end CoinBalance

namespace Wallet

/-- A wallet is a record, and so are the balances in it. -/
def shape : Shape := .record (record.fields.map Field.key) fun key =>
  if key = "coin" then .list CoinBalance.shape else .plain

theorem goesByContent : codec.GoesByContent shape := by
  refine Record.goesByContent nodup_keys (by decide) ?_
  have hamount := Field.goesByContent_amount
  simp only [record, List.forall_mem_cons]
  exact ⟨Codec.goesByContent_text, hamount _ _, hamount _ _, hamount _ _, hamount _ _,
    hamount _ _, hamount _ _, hamount _ _, hamount _ _, hamount _ _,
    CoinBalance.goesByContent.list, List.forall_mem_nil _⟩

end Wallet

/-! ### Order reports -/

theorem Category.ignoresBlanks : codec.IgnoresBlanks := Codec.ignoresBlanks_choice _ _ _

namespace OrderReport

/-- An order report is a record. -/
def shape : Shape := .record keys fun _ => .plain

theorem sift_bare (levels : Nat) (found : Option Category) (ms : List (Entry Node)) :
    sift levels found (ms.map bareMember) = sift levels found ms := by
  induction ms generalizing found with
  | nil => rfl
  | cons m ms ih =>
    simp only [List.map_cons, sift, bareMember_key, bareMember_value, kept?_bare,
      Category.ignoresBlanks levels, ih]

theorem ignoresBlanks : codec.IgnoresBlanks := by
  intro levels t
  change read levels t.bare = read levels t
  cases t with
  | array es ending => cases levels <;> rw [bare] <;> rfl
  | object ms ending =>
    cases levels with
    | zero => rw [bare, read, read]
    | succ levels => rw [bare, bareMembers_eq, read, read, sift_bare, Ending.check_bare]
  | _ => cases levels <;> rfl

/-- An object is read as a report alike if the members of no field are kept alike, and the values
for each field are. -/
theorem read_object_congr {levels : Nat} {ms ms' : List (Entry Node)} {ending : Ending}
    (hothers : (∀ m ∈ others ms, m.IsKept levels) ↔ ∀ m ∈ others ms', m.IsKept levels)
    (hholds : ∀ f ∈ categoryField :: Order.record.fields, ∀ x,
      f.Holds levels (valuesNamed f.keys ms) x ↔ f.Holds levels (valuesNamed f.keys ms') x)
    {r : OrderReport} :
    read (levels + 1) (object ms ending) = .ok r ↔
      read (levels + 1) (object ms' ending) = .ok r := by
  obtain ⟨hcategory, hfields⟩ := List.forall_mem_cons.1 hholds
  rw [read_object_iff, read_object_iff]
  exact and_congr_right fun _ => and_congr hothers
    (and_congr (hcategory r.category) (hold_object_congr hfields))

theorem keys_subset {f : Field} (hf : f ∈ categoryField :: Order.record.fields) :
    f.keys ⊆ keys := by
  intro key hkey
  obtain rfl | hf := List.mem_cons.1 hf
  · exact List.mem_append_right _ hkey
  · exact List.mem_append_left _ (List.mem_flatMap.2 ⟨f, hf, hkey⟩)

theorem respects : codec.Respects shape := by
  intro levels t t' ht r
  cases ht with
  | blanks ht => rw [ignoresBlanks.read_eq ht]
  | order hms =>
    refine read_object_congr ?_ fun f _ x => holds_perm (valuesNamed_perm hms)
    exact forall_congr' fun m => imp_congr_left (hms.filter _).mem_iff
  | @insertion _ _ levels before after m ending hm =>
    have hother : others (before ++ m :: after) = others before ++ m :: others after := by
      have hnamed := hm.isNamed (List.subset_append_right _ _)
      rw [others, List.filter_append, List.filter_cons_of_pos (by simp [hnamed]), others, others]
    refine read_object_congr ?_ fun f hf x => ?_
    · rw [hother, others, List.filter_append]
      simp only [List.forall_mem_append, List.forall_mem_cons, hm.isKept, true_and]
      exact Iff.rfl
    · rw [valuesNamed_insert (hm.isNamed (keys_subset hf))]
  | member _ _ h =>
    -- No field of a report holds a record, so there is nothing but blanks to change in its value.
    rw [ignoresBlanks.read_eq (bare_replace (bare_of_relaid_plain h) _ _ _)]
  | position => exact Iff.rfl

theorem goesByContent : codec.GoesByContent shape := ⟨readsSound, ignoresBlanks, respects⟩

end OrderReport

/-! ### Pushes -/

/-- Where the records are in the payload of a push on a topic of a type. -/
def TopicType.shape : TopicType → Shape
  | orderBook => BookPayload.shape
  | kline => .list Candle.shape
  | order => .list OrderReport.shape
  | wallet => .list Wallet.shape
  | unknown _ => .plain

/-- Two errors are of one kind: payload errors of the same target, or the same error. -/
def FeedError.IsLike : FeedError → FeedError → Prop
  | payload target _ _, payload target' _ _ => target = target'
  | e, e' => e = e'

theorem FeedError.isLike_refl (e : FeedError) : e.IsLike e := by
  cases e <;> rfl

/-- Two outcomes are the same value or errors of one kind. -/
inductive Alike {α : Type} : Except FeedError α → Except FeedError α → Prop
  | ok (x : α) : Alike (.ok x) (.ok x)
  | error {e e' : FeedError} (h : e.IsLike e') : Alike (.error e) (.error e')

namespace Alike

variable {α β : Type}

theorem refl (x : Except FeedError α) : Alike x x := by
  cases x with
  | ok x => exact .ok x
  | error e => exact .error e.isLike_refl

theorem isOk_eq {x x' : Except FeedError α} (h : Alike x x') : x.isOk = x'.isOk := by
  cases h <;> rfl

theorem eq_ok {x : α} {x' : Except FeedError α} (h : Alike (.ok x) x') : x' = .ok x := by
  cases h
  rfl

theorem map {x x' : Except FeedError α} (h : Alike x x') (f : α → β) :
    Alike (x.map f) (x'.map f) := by
  cases h with
  | ok x => exact .ok (f x)
  | error h => exact .error h

theorem bind {x x' : Except FeedError α} (h : Alike x x') {f f' : α → Except FeedError β}
    (hf : ∀ a, Alike (f a) (f' a)) : Alike (x >>= f) (x' >>= f') := by
  cases h with
  | ok x => exact hf x
  | error h => exact .error h

end Alike

namespace Push

/-- The push with another payload. -/
def withPayload (p : Push) (payload : String) : Push := { p with payload }

variable {p : Push} {payload : String}

theorem read_alike {α : Type} {codec : Codec α} {shape : Shape} (hcodec : codec.GoesByContent shape)
    (h : SameContent shape p.payload payload) (target : TopicType) :
    Alike (p.read target codec) ((p.withPayload payload).read target codec) := by
  have hiff := hcodec.decode_iff h
  unfold Push.read withPayload
  dsimp only
  cases hx : decode codec (octets p.payload) with
  | ok x =>
    rw [(hiff x).1 hx]
    exact .ok x
  | error fault =>
    cases hx' : decode codec (octets payload) with
    | ok x' =>
      rw [(hiff x').2 hx'] at hx
      cases hx
    | error fault' => exact .error rfl

/-- Payloads of the same content give the same event, or errors of one kind. -/
theorem event_alike (h : SameContent p.topicType.shape p.payload payload) :
    Alike p.event (p.withPayload payload).event := by
  have htype : (p.withPayload payload).topicType = p.topicType := rfl
  unfold event
  rw [htype]
  cases hp : p.topicType with
  | orderBook =>
    rw [hp] at h
    exact ((read_alike BookPayload.goesByContent h _).bind fun _ => .ok _).map _
  | kline =>
    rw [hp] at h
    refine (Alike.bind (.refl p.symbol) fun symbol => ?_).map _
    refine (read_alike Candle.goesByContent.list h _).bind fun candles => ?_
    split
    · exact .error rfl
    · exact .refl _
  | order =>
    rw [hp] at h
    exact (read_alike OrderReport.goesByContent.list h _).map _
  | wallet =>
    rw [hp] at h
    exact (read_alike Wallet.goesByContent.list h _).map _
  | unknown raw => exact .refl _

/-- The push of a wallet with the given members. -/
def ofWallet (ms : List (Entry Node)) : Push where
  topic := TopicType.wallet.text
  kind := .snapshot
  timestamp := 0
  payload := textOf (ofList [ofMembers ms]).text

/-- The type of an account. -/
def account : Entry Node := member "accountType" (ofString "UNIFIED")

/-- One balance, with the given members behind its coin. -/
def coins (others : List (String × Node)) : Entry Node :=
  member "coin" (ofList [ofPairs (("coin", ofString "BTC") :: others)])

/-- A wallet with the type of the account behind its balance, blanks around it, and a member of no
field in the balance. -/
def relaidWallet : Node :=
  array [⟨[0x20], ofMembers [coins [("free", ofList [.null])], account], [0x0A]⟩] (.closed [])

theorem sameContent_relaidWallet :
    SameContent TopicType.wallet.shape (ofWallet [account, coins []]).payload
      (textOf relaidWallet.text) := by
  have hspells : Spells (octets (ofWallet [account, coins []]).payload)
      (ofList [ofMembers [account, coins []]]) :=
    IsPlain.spells ⟨by decide +kernel, Utf8.isText_of_ascii (by decide +kernel)⟩
  have hspells' : Spells (octets (textOf relaidWallet.text)) relaidWallet :=
    IsPlain.spells ⟨by decide +kernel, Utf8.isText_of_ascii (by decide +kernel)⟩
  have hforeign : (member "free" (ofList [.null])).IsForeign 123
      (CoinBalance.record.fields.map Field.key) :=
    isForeign_member (isPlain_ofList (by simp)) (by decide) rfl
  have hcoins : Relaid (.list CoinBalance.shape) 125 (coins []).value
      (coins [("free", ofList [.null])]).value :=
    @Relaid.element _ _ [] [] ⟨[], _, []⟩ _ _ (@Relaid.insertion _ _ _ [_] [] _ _ hforeign)
  have hinsertion : Relaid (.list Wallet.shape) allLevels (ofList [ofMembers [account, coins []]])
      (ofList [ofMembers [account, coins [("free", ofList [.null])]]]) :=
    @Relaid.element _ _ [] [] ⟨[], _, []⟩ _ _
      (@Relaid.member _ _ _ [_] [] _ _ "coin" _ (StringPart.decode?_encode _) (by decide) hcoins)
  have horder : Relaid (.list Wallet.shape) allLevels
      (ofList [ofMembers [account, coins [("free", ofList [.null])]]])
      (ofList [ofMembers [coins [("free", ofList [.null])], account]]) :=
    @Relaid.element _ _ [] [] ⟨[], _, []⟩ _ _ (.order (.swap _ _ _))
  have hblanks : Relaid (.list Wallet.shape) allLevels
      (ofList [ofMembers [coins [("free", ofList [.null])], account]]) relaidWallet := .blanks rfl
  exact .relaid hspells hspells' (.trans _ _ _ (.rel _ _ hinsertion)
    (.trans _ _ _ (.rel _ _ horder) (.rel _ _ hblanks)))

theorem event_alike_wallet :
    ∃ event, (ofWallet [account, coins []]).event = .ok event ∧
      ((ofWallet [account, coins []]).withPayload (textOf relaidWallet.text)).event =
        .ok event := by
  have hok : (ofWallet [account, coins []]).event.isOk = true := by decide +kernel
  have halike := event_alike (p := ofWallet [account, coins []]) sameContent_relaidWallet
  cases hevent : (ofWallet [account, coins []]).event with
  | ok event =>
    rw [hevent] at halike
    exact ⟨event, rfl, halike.eq_ok⟩
  | error e =>
    rw [hevent] at hok
    cases hok

/-- A member whose key is half of a surrogate pair. -/
def loneKey : Entry Node :=
  { account with key := [.code 0x64 0x38 0x30 0x30], value := .null }

/-- A member whose key is no text is of no field, but it makes a difference. -/
theorem event_not_alike_loneKey :
    IsMember loneKey ∧ loneKey.value.isTame 0 = true ∧
      (∀ key ∈ Wallet.record.fields.map Field.key, StringPart.decode? loneKey.key ≠ some key) ∧
      ¬Alike (ofWallet [account]).event
        ((ofWallet [account]).withPayload (ofWallet [loneKey, account]).payload).event := by
  refine ⟨⟨rfl, by decide, ⟨[], [], rfl, rfl, rfl⟩, rfl, rfl⟩, rfl, by decide +kernel, ?_⟩
  have hok : (ofWallet [account]).event.isOk = true := by decide +kernel
  have herror : ((ofWallet [account]).withPayload
      (ofWallet [loneKey, account]).payload).event.isOk = false := by decide +kernel
  intro halike
  rw [halike.isOk_eq, herror] at hok
  cases hok

end Push

end MarketFeed
