import MarketFeed.Proofs.Pump.Delivery

/-!
# Accounting

How the counts of a pump, what its channel has accepted and why it has ended hang together, in every
interleaving of the moves of the pump and its receiver.  `Tallies` says that counts are those of
the items that have been pulled; every move keeps it (`Tallied.move`).  `Accounts` says what this
comes to when the pump has ended.
-/

namespace MarketFeed

namespace Pump

/-! ### Counting items -/

/-- Whether an item is passed over. -/
def Item.isControl : Item → Bool
  | .ping | .pong | .raw => true
  | _ => false

/-- Every item is a frame, is passed over, or ends the connection. -/
theorem Item.frame_or_control_or_last (i : Item) :
    (∃ raw, i.frame? = some raw) ∨ (i.frame? = none ∧ i.isControl = true) ∨
      (i.frame? = none ∧ i.isLast = true) := by
  cases i <;> simp [Item.frame?, Item.isControl, Item.isLast]

variable {α : Type} (pump : Pump α)

/-- The counts are those of the items pulled so far, up to the bound of a word. -/
structure Tallies (counts : Counts) (pulled : List Item) : Prop where
  frames : counts.frames = .ofNat pulled.length
  decoded : counts.decoded = .ofNat ((pump.allOutcomes pulled).countP fun o => o.isOk)
  failed : counts.failed = .ofNat ((pump.allOutcomes pulled).countP fun o => !o.isOk)
  skipped : counts.skipped = .ofNat (pulled.countP Item.isControl)

theorem Tallies.begin : pump.Tallies {} [] := ⟨rfl, rfl, rfl, rfl⟩

theorem length_allOutcomes (items : List Item) :
    (pump.allOutcomes items).length = items.countP fun i => i.frame?.isSome := by
  simp [allOutcomes, List.length_filterMap_eq_countP]

/-- The outcomes that went well and those that did not are all there are. -/
theorem length_outcomes (outcomes : List (Outcome α)) :
    outcomes.length = outcomes.countP (fun o => o.isOk) + outcomes.countP fun o => !o.isOk := by
  rw [List.length_eq_countP_add_countP fun o : Outcome α => o.isOk]
  simp

/-- What is read, what fails, what is passed over and what ends the connection are all there is. -/
theorem length_pulled (items : List Item) :
    items.length = (pump.allOutcomes items).countP (fun o => o.isOk) +
      (pump.allOutcomes items).countP (fun o => !o.isOk) + items.countP Item.isControl +
      items.countP Item.isLast := by
  rw [← length_outcomes, length_allOutcomes]
  induction items with
  | nil => rfl
  | cons i items ih =>
    simp only [List.length_cons, List.countP_cons, ih]
    cases i <;> simp [Item.frame?, Item.isControl, Item.isLast] <;> omega

/-- Counts of fewer items than the bound of a word are exact. -/
structure Exact (counts : Counts) (pulled : List Item) : Prop where
  frames : counts.frames.toNat = pulled.length
  decoded : counts.decoded.toNat = (pump.allOutcomes pulled).countP fun o => o.isOk
  failed : counts.failed.toNat = (pump.allOutcomes pulled).countP fun o => !o.isOk
  skipped : counts.skipped.toNat = pulled.countP Item.isControl

theorem Tallies.exact {counts : Counts} {pulled : List Item} (h : pump.Tallies counts pulled)
    (few : pulled.length < UInt64.size) : pump.Exact counts pulled := by
  have all := pump.length_pulled pulled
  have toNat {word : UInt64} {n : Nat} (hword : word = .ofNat n) (hn : n ≤ pulled.length) :
      word.toNat = n := by
    rw [hword, UInt64.toNat_ofNat_of_lt' (Nat.lt_of_le_of_lt hn few)]
  exact ⟨toNat h.frames (Nat.le_refl _), toNat h.decoded (by omega), toNat h.failed (by omega),
    toNat h.skipped (by omega)⟩

/-! ### Every move keeps the tally -/

theorem handle_of_isControl {item : Item} (h : item.isControl = true) (s : Session α) :
    pump.handle s item =
      { s with counts := { s.counts with skipped := s.counts.skipped + 1 } } := by
  cases item <;> simp_all [Item.isControl, Pump.handle]

theorem handle_counts_of_isLast {item : Item} (h : item.isLast = true) (s : Session α) :
    (pump.handle s item).counts = s.counts := by
  cases item <;> simp_all [Item.isLast, Pump.handle, Pump.finish]

/-- A frame counts as read or as failed, whichever its outcome is. -/
theorem Tallies.frame {counts : Counts} {pulled : List Item} (h : pump.Tallies counts pulled)
    {item : Item} {raw : List UInt8} (hframe : item.frame? = some raw) :
    pump.Tallies
      { counts with
        frames := counts.frames + 1
        decoded := counts.decoded + if (pump.outcome raw).isOk then 1 else 0
        failed := counts.failed + if (pump.outcome raw).isOk then 0 else 1 }
      (pulled ++ [item]) := by
  have hcontrol : item.isControl = false := by
    cases item <;> simp_all [Item.frame?, Item.isControl]
  constructor
  · simp [h.frames]
  · cases hok : (pump.outcome raw).isOk <;>
      simp [h.decoded, allOutcomes_append, allOutcomes_frame pump hframe, hok]
  · cases hok : (pump.outcome raw).isOk <;>
      simp [h.failed, allOutcomes_append, allOutcomes_frame pump hframe, hok]
  · simp [h.skipped, hcontrol]

theorem read_counts (s : Session α) (raw : List UInt8) :
    (pump.read s raw).counts =
      { s.counts with
        decoded := s.counts.decoded + if (pump.outcome raw).isOk then 1 else 0
        failed := s.counts.failed + if (pump.outcome raw).isOk then 0 else 1 } := by
  cases hresult : (pump.feed.read raw).result <;>
    simp [Pump.read, outcome, hresult, Except.isOk, Except.toBool]

theorem Tallies.handle {s : Session α} {pulled : List Item} (h : pump.Tallies s.counts pulled)
    (rest : List Item) (item : Item) :
    pump.Tallies (pump.handle (s.pull rest) item).counts (pulled ++ [item]) := by
  obtain ⟨raw, hframe⟩ | ⟨hframe, hcontrol⟩ | ⟨hframe, hlast⟩ := item.frame_or_control_or_last
  · rw [handle_of_frame? pump hframe, read_counts]
    exact h.frame pump hframe
  · rw [handle_of_isControl pump hcontrol]
    constructor <;>
      simp [Session.pull, h.frames, h.decoded, h.failed, h.skipped, allOutcomes_append,
        allOutcomes_skipped pump hframe, hcontrol]
  · have hcontrol : item.isControl = false := by
      cases item <;> simp_all [Item.isLast, Item.isControl]
    rw [handle_counts_of_isLast pump hlast]
    constructor <;>
      simp [Session.pull, h.frames, h.decoded, h.failed, h.skipped, allOutcomes_append,
        allOutcomes_skipped pump hframe, hcontrol]

/-- The counts of a session are those of the items that are no longer in it. -/
def Tallied (items : List Item) (s : Session α) : Prop :=
  ∃ pulled, items = pulled ++ s.items ∧ pump.Tallies s.counts pulled

theorem Tallied.begin (items : List Item) : pump.Tallied items (pump.begin items) :=
  ⟨[], rfl, .begin pump⟩

theorem send_counts (s : Session α) (outcome : Outcome α) :
    (pump.send s outcome).counts = s.counts := by
  unfold Pump.send
  split_ifs <;> rfl

theorem Tallied.congr {items : List Item} {s s' : Session α} (h : pump.Tallied items s)
    (itemsEq : s'.items = s.items) (countsEq : s'.counts = s.counts) : pump.Tallied items s' := by
  obtain ⟨pulled, split, tallies⟩ := h
  exact ⟨pulled, itemsEq ▸ split, countsEq ▸ tallies⟩

theorem Tallied.step {items : List Item} {s : Session α} (h : pump.Tallied items s) :
    pump.Tallied items (pump.step s) := by
  obtain ⟨exit, -, same⟩ | ⟨outcome, -, -, sent⟩ | ⟨-, -, -, finished⟩ |
    ⟨item, rest, -, -, left, pulled⟩ := pump.step_cases s
  · rwa [same]
  · rw [sent]
    exact h.congr pump (send_items pump s outcome) (send_counts pump s outcome)
  · rw [finished]
    exact h.congr pump rfl rfl
  · rw [pulled]
    obtain ⟨before, split, tallies⟩ := h
    refine ⟨before ++ [item], ?_, tallies.handle pump rest item⟩
    rw [handle_items, split, left, List.append_assoc]
    rfl

theorem Tallied.move {items : List Item} {s : Session α} (h : pump.Tallied items s) (m : Move) :
    pump.Tallied items (pump.move s m) := by
  obtain rfl | ⟨queue, taken, receiving, moved, -⟩ := pump.move_cases s m
  · exact h.step
  · rw [moved]
    exact h.congr pump rfl rfl

theorem tallied_play (items : List Item) (moves : List Move) :
    pump.Tallied items (pump.play (pump.begin items) moves) :=
  pump.play_induction (fun _ m _ h => h.move pump m) (.begin pump items)

/-! ### When the pump has ended -/

/-- Whether a pump that ends for a reason has pulled an item that it neither reads nor skips. -/
def Exit.isOfConnection : Exit → Bool
  | .closed | .transportError => true
  | .exhausted | .receiverDropped => false

/-- How a pump that has ended for a reason accounts for the items it has pulled. -/
structure Accounts (s : Session α) (pulled : List Item) (exit : Exit) : Prop
    extends pump.Tallies s.counts pulled where
  total : s.counts.frames = s.counts.decoded + s.counts.failed + s.counts.skipped +
    if exit.isOfConnection then 1 else 0
  /-- All outcomes were accepted, but for the one that found no receiver. -/
  accepted : s.counts.decoded + s.counts.failed =
    .ofNat (s.accepted.length + if exit = .receiverDropped then 1 else 0)
  /-- No count has started again, so the same holds of them as numbers. -/
  exact : pulled.length < UInt64.size → pump.Exact s.counts pulled ∧
    s.counts.frames.toNat = s.counts.decoded.toNat + s.counts.failed.toNat +
      s.counts.skipped.toNat + (if exit.isOfConnection then 1 else 0) ∧
    s.counts.decoded.toNat + s.counts.failed.toNat =
      s.accepted.length + if exit = .receiverDropped then 1 else 0
  closed : exit = .closed ↔ ∃ frame, pulled.getLast? = some (.close frame)
  transportError : exit = .transportError ↔ ∃ cause, pulled.getLast? = some (.failure cause)
  receiverDropped : exit = .receiverDropped ↔ ∃ item raw, pulled.getLast? = some item ∧
    item.frame? = some raw ∧ s.accepted = pump.allOutcomes pulled.dropLast ∧ s.receiving = false
  exhausted : exit = .exhausted ↔ s.items = [] ∧ (∀ i ∈ pulled, i.isLast = false) ∧
    s.accepted = pump.allOutcomes pulled

section

variable {s : Session α} {pulled : List Item} {exit : Exit} (tallies : pump.Tallies s.counts pulled)

include tallies

theorem Tallies.total (last : pulled.countP Item.isLast = if exit.isOfConnection then 1 else 0) :
    s.counts.frames = s.counts.decoded + s.counts.failed + s.counts.skipped +
      if exit.isOfConnection then 1 else 0 := by
  rw [tallies.frames, tallies.decoded, tallies.failed, tallies.skipped, length_pulled pump, last,
    UInt64.ofNat_add, UInt64.ofNat_add, UInt64.ofNat_add]
  split_ifs <;> rfl

theorem Tallies.accepted (sent : (pump.allOutcomes pulled).length =
      s.accepted.length + if exit = .receiverDropped then 1 else 0) :
    s.counts.decoded + s.counts.failed =
      .ofNat (s.accepted.length + if exit = .receiverDropped then 1 else 0) := by
  rw [tallies.decoded, tallies.failed, ← UInt64.ofNat_add, ← length_outcomes, sent]

/-- The sums hold of the counts as numbers when no count has started again. -/
theorem Tallies.exact_sums
    (last : pulled.countP Item.isLast = if exit.isOfConnection then 1 else 0)
    (sent : (pump.allOutcomes pulled).length =
      s.accepted.length + if exit = .receiverDropped then 1 else 0)
    (few : pulled.length < UInt64.size) :
    pump.Exact s.counts pulled ∧
      s.counts.frames.toNat = s.counts.decoded.toNat + s.counts.failed.toNat +
        s.counts.skipped.toNat + (if exit.isOfConnection then 1 else 0) ∧
      s.counts.decoded.toNat + s.counts.failed.toNat =
        s.accepted.length + if exit = .receiverDropped then 1 else 0 := by
  have exact := tallies.exact pump few
  refine ⟨exact, ?_, ?_⟩
  · rw [exact.frames, exact.decoded, exact.failed, exact.skipped, ← last, ← length_pulled]
  · rw [exact.decoded, exact.failed, ← length_outcomes, sent]

end

theorem pulled_eq_concat {items pulled before rest : List Item} {item : Item}
    (split : items = pulled ++ rest) (h : items = before ++ item :: rest) :
    pulled = before ++ [item] := by
  rw [split, List.append_cons] at h
  exact List.append_cancel_right h

/-- Where a pump that has ended stands: it has pulled all items and sent their outcomes, or it has
ended on the last item it has pulled, and sent the outcomes before that. -/
theorem Stage.ended {items pulled : List Item} {s : Session α} (h : pump.Stage items s)
    (split : items = pulled ++ s.items) {exit : Exit} (he : s.exit = some exit) :
    exit = .exhausted ∧ s.items = [] ∧ Open pulled ∧ s.accepted = pump.allOutcomes pulled ∨
      ∃ before item, pulled = before ++ [item] ∧ Open before ∧ item.EndsWith exit ∧
        s.accepted = pump.allOutcomes before ∧ (exit = .receiverDropped → s.receiving = false) := by
  cases h with
  | idle _ none | sending _ _ _ none => simp [none] at he
  | exhausted some nothing isOpen accepted =>
    rw [nothing, List.append_nil] at split
    subst split
    exact .inl ⟨Option.some.inj (he.symm.trans some), nothing, isOpen, accepted⟩
  | closed before frame some last isOpen accepted =>
    obtain rfl := Option.some.inj (he.symm.trans some)
    exact .inr ⟨before, _, pulled_eq_concat split last, isOpen, trivial, accepted, nofun⟩
  | failed before cause some last isOpen accepted =>
    obtain rfl := Option.some.inj (he.symm.trans some)
    exact .inr ⟨before, _, pulled_eq_concat split last, isOpen, trivial, accepted, nofun⟩
  | dropped before item raw some last isOpen frame accepted gone =>
    obtain rfl := Option.some.inj (he.symm.trans some)
    exact .inr ⟨before, item, pulled_eq_concat split last, isOpen,
      Item.endsWith_receiverDropped frame, accepted, fun _ => gone⟩

theorem Open.countP_isLast {items : List Item} (h : Open items) :
    items.countP Item.isLast = 0 := by
  rw [List.countP_eq_zero]
  intro i hi
  simp [h i hi]

theorem Accounts.of_exhausted {s : Session α} {pulled : List Item}
    (tallies : pump.Tallies s.counts pulled) (nothing : s.items = []) (isOpen : Open pulled)
    (accepted : s.accepted = pump.allOutcomes pulled) : pump.Accounts s pulled .exhausted := by
  have notLast {i : Item} (h : pulled.getLast? = some i) : i.isLast = false :=
    isOpen i (List.mem_of_getLast? h)
  have last := isOpen.countP_isLast
  have sent := (congrArg List.length accepted).symm
  refine ⟨tallies, tallies.total pump last, tallies.accepted pump sent,
    tallies.exact_sums pump last sent, ?_, ?_, ?_, ?_⟩
  · refine ⟨nofun, fun ⟨frame, h⟩ => ?_⟩
    cases notLast h
  · refine ⟨nofun, fun ⟨cause, h⟩ => ?_⟩
    cases notLast h
  · refine ⟨nofun, fun ⟨item, raw, h, frame, refused, _⟩ => ?_⟩
    obtain ⟨before, rfl⟩ := List.getLast?_eq_some_iff.1 h
    rw [List.dropLast_concat, accepted, allOutcomes_append, allOutcomes_frame pump frame] at refused
    simp at refused
  · exact ⟨fun _ => ⟨nothing, isOpen, accepted⟩, fun _ => rfl⟩

theorem Item.endsWith_cases {item : Item} {exit : Exit} (h : item.EndsWith exit) :
    (∃ frame, item = .close frame ∧ exit = .closed) ∨
      (∃ cause, item = .failure cause ∧ exit = .transportError) ∨
      ∃ raw, item.frame? = some raw ∧ exit = .receiverDropped := by
  cases item <;> cases exit <;> simp_all [Item.EndsWith, Item.frame?]

theorem Accounts.of_connection {s : Session α} {before : List Item} {item : Item} {exit : Exit}
    (tallies : pump.Tallies s.counts (before ++ [item])) (isOpen : Open before)
    (accepted : s.accepted = pump.allOutcomes before)
    (ends : (∃ frame, item = .close frame ∧ exit = .closed) ∨
      ∃ cause, item = .failure cause ∧ exit = .transportError) :
    pump.Accounts s (before ++ [item]) exit := by
  have isLast : item.isLast = true ∧ item.frame? = none ∧ exit.isOfConnection = true := by
    obtain ⟨_, rfl, rfl⟩ | ⟨_, rfl, rfl⟩ := ends <;> exact ⟨rfl, rfl, rfl⟩
  obtain ⟨isLast, noFrame, isOfConnection⟩ := isLast
  have last : (before ++ [item]).countP Item.isLast = if exit.isOfConnection then 1 else 0 := by
    rw [List.countP_append, isOpen.countP_isLast, List.countP_singleton, isLast, isOfConnection]
    rfl
  have sent : (pump.allOutcomes (before ++ [item])).length =
      s.accepted.length + if exit = .receiverDropped then 1 else 0 := by
    rw [allOutcomes_append, allOutcomes_skipped pump noFrame, List.append_nil, ← accepted]
    obtain ⟨_, rfl, rfl⟩ | ⟨_, rfl, rfl⟩ := ends <;> rfl
  refine ⟨tallies, tallies.total pump last, tallies.accepted pump sent,
    tallies.exact_sums pump last sent, ?_, ?_, ?_, ?_⟩
  · obtain ⟨_, rfl, rfl⟩ | ⟨_, rfl, rfl⟩ := ends <;> simp
  · obtain ⟨_, rfl, rfl⟩ | ⟨_, rfl, rfl⟩ := ends <;> simp
  · obtain ⟨_, rfl, rfl⟩ | ⟨_, rfl, rfl⟩ := ends <;> simp [Item.frame?]
  · constructor
    · rintro rfl
      cases isOfConnection
    · rintro ⟨_, notLast, _⟩
      rw [notLast item (List.mem_append_right _ List.mem_cons_self)] at isLast
      cases isLast

theorem Accounts.of_refused {s : Session α} {before : List Item} {item : Item} {raw : List UInt8}
    (tallies : pump.Tallies s.counts (before ++ [item])) (isOpen : Open before)
    (accepted : s.accepted = pump.allOutcomes before) (frame : item.frame? = some raw)
    (gone : s.receiving = false) : pump.Accounts s (before ++ [item]) .receiverDropped := by
  have notLast : item.isLast = false := Item.isLast_of_frame? frame
  have last : (before ++ [item]).countP Item.isLast = 0 := by
    rw [List.countP_append, isOpen.countP_isLast, List.countP_singleton, notLast]
    rfl
  have sent : (pump.allOutcomes (before ++ [item])).length = s.accepted.length + 1 := by
    rw [allOutcomes_append, allOutcomes_frame pump frame, ← accepted, List.length_append]
    rfl
  refine ⟨tallies, tallies.total pump last, tallies.accepted pump sent,
    tallies.exact_sums pump last sent, ?_, ?_, ?_, ?_⟩
  · refine ⟨nofun, fun ⟨_, h⟩ => ?_⟩
    rw [List.getLast?_concat, Option.some.injEq] at h
    cases h ▸ frame
  · refine ⟨nofun, fun ⟨_, h⟩ => ?_⟩
    rw [List.getLast?_concat, Option.some.injEq] at h
    cases h ▸ frame
  · refine ⟨fun _ => ⟨item, raw, List.getLast?_concat, frame, ?_, gone⟩, fun _ => rfl⟩
    rw [List.dropLast_concat, accepted]
  · refine ⟨nofun, fun ⟨_, _, h⟩ => ?_⟩
    rw [accepted, allOutcomes_append, allOutcomes_frame pump frame] at h
    simp at h

/-- A pump that has ended accounts for the items it has pulled. -/
theorem accounts_of_exit {items : List Item} {s : Session α} (stage : pump.Stage items s)
    (tallied : pump.Tallied items s) {exit : Exit} (he : s.exit = some exit) :
    ∃ pulled, items = pulled ++ s.items ∧ pump.Accounts s pulled exit := by
  obtain ⟨pulled, split, tallies⟩ := tallied
  refine ⟨pulled, split, ?_⟩
  obtain ⟨rfl, nothing, isOpen, accepted⟩ | ⟨before, item, rfl, isOpen, ends, accepted, gone⟩ :=
    stage.ended pump split he
  · exact .of_exhausted pump tallies nothing isOpen accepted
  · obtain closed | failed | ⟨raw, frame, rfl⟩ := Item.endsWith_cases ends
    · exact .of_connection pump tallies isOpen accepted (.inl closed)
    · exact .of_connection pump tallies isOpen accepted (.inr failed)
    · exact .of_refused pump tallies isOpen accepted frame (gone rfl)

/-! ### Items that are passed over -/

/-- The session from which control items have been pulled, up to the given rest. -/
def Session.skip (s : Session α) (count : Nat) (rest : List Item) : Session α :=
  { s with
    items := rest
    counts := { s.counts with
      frames := s.counts.frames + .ofNat count
      skipped := s.counts.skipped + .ofNat count } }

/-- Control items are pulled and counted, one a step, whether or not the receiver is there. -/
theorem play_control {s : Session α} (exit : s.exit = none) (pending : s.pending = none)
    {control rest : List Item} (left : s.items = control ++ rest)
    (isControl : ∀ i ∈ control, i.isControl = true) :
    pump.play s (List.replicate control.length .step) = s.skip control.length rest := by
  induction control generalizing s with
  | nil =>
    obtain rfl : s.items = rest := left
    simp [play, Session.skip]
  | cons i control ih =>
    obtain ⟨hi, hcontrol⟩ := List.forall_mem_cons.1 isControl
    have step : pump.step s = s.skip 1 (control ++ rest) := by
      rw [step_of_cons pump exit pending left, handle_of_isControl pump hi]
      rfl
    -- After one step the session is like the first, with one item skipped.
    have later := ih (s := s.skip 1 (control ++ rest)) exit pending rfl hcontrol
    rw [List.length_cons, List.replicate_succ, play, List.foldl_cons, Pump.move, step]
    refine later.trans ?_
    simp [Session.skip, UInt64.ofNat_add, UInt64.add_assoc, UInt64.add_comm 1]

/-- A frame on which the pump finds no receiver ends it in two steps. -/
theorem play_refused {s : Session α} (exit : s.exit = none) (pending : s.pending = none)
    (gone : s.receiving = false) {item : Item} {raw : List UInt8} {rest : List Item}
    (left : s.items = item :: rest) (frame : item.frame? = some raw) :
    let s' := pump.play s [.step, .step]
    s'.exit = some .receiverDropped ∧ s'.items = rest ∧ s'.accepted = s.accepted ∧
      s'.counts = (pump.read (s.pull rest) raw).counts := by
  have pulled : pump.step s = pump.read (s.pull rest) raw := by
    rw [step_of_cons pump exit pending left, handle_of_frame? pump frame]
  have refused : pump.step (pump.read (s.pull rest) raw) =
      pump.send (pump.read (s.pull rest) raw) (pump.outcome raw) :=
    step_of_pending pump exit rfl
  have absent : ¬(pump.read (s.pull rest) raw).receiving = true := by
    rw [show (pump.read (s.pull rest) raw).receiving = s.receiving from rfl, gone]
    exact Bool.false_ne_true
  rw [play, List.foldl_cons, List.foldl_cons, List.foldl_nil, Pump.move, Pump.move, pulled, refused,
    Pump.send, if_neg absent]
  exact ⟨rfl, rfl, rfl, rfl⟩

/-! ### The summary of a run -/

/-- When a pump has ended, after whatever moves of the pump and its receiver, its counts, what the
channel has accepted and the reason for the end are those of the items it has pulled.  Once the
receiver is gone the pump still pulls and counts control items, until it pulls a frame. -/
theorem play_accounts (items : List Item) (moves : List Move) :
    let s := pump.play (pump.begin items) moves
    (∀ exit, s.exit = some exit →
      ∃ pulled, items = pulled ++ s.items ∧ pump.Accounts s pulled exit) ∧
    ∀ control rest, s.exit = none → s.pending = none → s.receiving = false →
      s.items = control ++ rest → (∀ i ∈ control, i.isControl = true) →
      let skipped := pump.play s (List.replicate control.length .step)
      skipped = s.skip control.length rest ∧
      ∀ item raw rest', rest = item :: rest' → item.frame? = some raw →
        let ended := pump.play skipped [.step, .step]
        ended.exit = some .receiverDropped ∧ ended.items = rest' ∧ ended.accepted = s.accepted ∧
          ended.counts.frames = s.counts.frames + .ofNat control.length + 1 ∧
          ended.counts.skipped = s.counts.skipped + .ofNat control.length := by
  intro s
  refine ⟨fun exit he => ?_, fun control rest exit pending gone left isControl => ?_⟩
  · exact accounts_of_exit pump (pump.stage_play items moves) (pump.tallied_play items moves) he
  · have skipped := pump.play_control exit pending left isControl
    refine ⟨skipped, fun item raw rest' hrest frame => ?_⟩
    obtain ⟨ended, left', accepted, counts⟩ :=
      pump.play_refused (s := s.skip control.length rest) exit pending gone hrest frame
    rw [skipped]
    refine ⟨ended, left', accepted, ?_, ?_⟩
    · rw [counts, read_counts]
      rfl
    · rw [counts, read_counts]
      rfl

/-- A pump that reads every frame as the same event. -/
def uniform : Pump Unit := ⟨⟨"", fun _ => .ok "", fun _ => ⟨.ok (), []⟩⟩, {}⟩

/-- The receiver leaves after the first of two frames, between which a ping arrives. -/
theorem play_accounts_ping :
    let items := [.text "", .ping, .binary [], .text ""]
    let s := uniform.play (uniform.begin items) [.step, .step, .take, .leave, .step, .step, .step]
    s.exit = some .receiverDropped ∧ s.counts = ⟨3, 2, 0, 1⟩ ∧
      ∃ pulled, items = pulled ++ s.items ∧ uniform.Accounts s pulled .receiverDropped :=
  ⟨rfl, rfl, (uniform.play_accounts _ _).1 _ rfl⟩

end Pump

end MarketFeed
