import Mathlib.Data.List.Forall2
import MarketFeed.Pump.Session

/-!
# Delivery

What a pump hands to its receiver, in every interleaving of their moves.  `Pump.outcomes` is what
reading the frames of a connection gives, up to the item that ends it.  `Stage` says where a session
stands in the items and what the channel has accepted so far, `Held` where the accepted outcomes are
now; every move keeps both (`Stage.move`, `Held.move`).  So the receiver gets the outcomes in their
order, none twice and none left out.
-/

namespace MarketFeed

namespace Pump

/-! ### Items and their outcomes -/

/-- Whether an item ends the connection. -/
def Item.isLast : Item → Bool
  | .close _ | .failure _ => true
  | _ => false

/-- Items that are interchangeable: the same item, or two frames of the same octets. -/
def Item.Alike (i j : Item) : Prop := i = j ∨ ∃ raw, i.frame? = some raw ∧ j.frame? = some raw

theorem Item.isLast_of_frame? {i : Item} {raw : List UInt8} (h : i.frame? = some raw) :
    i.isLast = false := by
  cases i <;> simp_all [Item.frame?, Item.isLast]

variable {α : Type} (pump : Pump α)

/-- The outcome of reading a frame. -/
def outcome (raw : List UInt8) : Outcome α := (pump.feed.read raw).result

/-- The outcomes of all frames among items. -/
def allOutcomes (items : List Item) : List (Outcome α) :=
  (items.filterMap Item.frame?).map pump.outcome

/-- The outcomes of the frames before the item that ends the connection. -/
def outcomes (items : List Item) : List (Outcome α) :=
  pump.allOutcomes (items.takeWhile fun i => !i.isLast)

@[simp] theorem allOutcomes_nil : pump.allOutcomes [] = [] := rfl

theorem allOutcomes_append (items items' : List Item) :
    pump.allOutcomes (items ++ items') = pump.allOutcomes items ++ pump.allOutcomes items' := by
  simp [allOutcomes]

theorem allOutcomes_frame {i : Item} {raw : List UInt8} (h : i.frame? = some raw) :
    pump.allOutcomes [i] = [pump.outcome raw] := by
  simp [allOutcomes, h]

theorem allOutcomes_skipped {i : Item} (h : i.frame? = none) : pump.allOutcomes [i] = [] := by
  simp [allOutcomes, h]

/-- Whether none of the items ends the connection. -/
def Open (items : List Item) : Prop := ∀ i ∈ items, i.isLast = false

theorem Open.append_singleton {before : List Item} (h : Open before) {i : Item}
    (hi : i.isLast = false) : Open (before ++ [i]) := by
  intro j hj
  rcases List.mem_append.1 hj with hj | hj
  · exact h j hj
  · rwa [List.mem_singleton.1 hj]

theorem outcomes_open_append {before : List Item} (h : Open before) (items : List Item) :
    pump.outcomes (before ++ items) = pump.allOutcomes before ++ pump.outcomes items := by
  have hp : ∀ i ∈ before, (!i.isLast) = true := fun i hi => by rw [h i hi]; rfl
  rw [outcomes, List.takeWhile_append_of_pos hp, allOutcomes_append, outcomes]

theorem outcomes_last {before items : List Item} {i : Item} (h : Open before)
    (hi : i.isLast = true) : pump.outcomes (before ++ i :: items) = pump.allOutcomes before := by
  rw [outcomes_open_append pump h]
  simp [outcomes, hi]

/-! ### Where a session stands -/

/-- Where a session stands in the items of its connection: `before` has been pulled and sent, and
what is left is still in the session.  In between may be an item that the pump has pulled and is
sending, or on which it has ended. -/
inductive Stage (items : List Item) (s : Session α) : Prop where
  | idle (before : List Item) (exit : s.exit = none) (pending : s.pending = none)
      (split : items = before ++ s.items) (isOpen : Open before)
      (accepted : s.accepted = pump.allOutcomes before)
  | sending (before : List Item) (item : Item) (raw : List UInt8) (exit : s.exit = none)
      (pending : s.pending = some (pump.outcome raw)) (split : items = before ++ item :: s.items)
      (isOpen : Open before) (frame : item.frame? = some raw)
      (accepted : s.accepted = pump.allOutcomes before)
  | exhausted (exit : s.exit = some .exhausted) (nothing : s.items = []) (isOpen : Open items)
      (accepted : s.accepted = pump.allOutcomes items)
  | closed (before : List Item) (frame : String) (exit : s.exit = some .closed)
      (split : items = before ++ .close frame :: s.items) (isOpen : Open before)
      (accepted : s.accepted = pump.allOutcomes before)
  | failed (before : List Item) (cause : String) (exit : s.exit = some .transportError)
      (split : items = before ++ .failure cause :: s.items) (isOpen : Open before)
      (accepted : s.accepted = pump.allOutcomes before)
  | dropped (before : List Item) (item : Item) (raw : List UInt8)
      (exit : s.exit = some .receiverDropped) (split : items = before ++ item :: s.items)
      (isOpen : Open before) (frame : item.frame? = some raw)
      (accepted : s.accepted = pump.allOutcomes before) (gone : s.receiving = false)

theorem Stage.begin (items : List Item) : pump.Stage items (pump.begin items) :=
  .idle [] rfl rfl rfl (by simp [Open]) rfl

/-! ### What a step does -/

/-- Once the pump has ended its steps change nothing. -/
theorem step_of_exit {s : Session α} {exit : Exit} (h : s.exit = some exit) : pump.step s = s := by
  rw [step, h]

theorem step_of_pending {s : Session α} {outcome : Outcome α} (exit : s.exit = none)
    (pending : s.pending = some outcome) : pump.step s = pump.send s outcome := by
  rw [step, exit, pending]

theorem step_of_nil {s : Session α} (exit : s.exit = none) (pending : s.pending = none)
    (items : s.items = []) : pump.step s = pump.finish s .exhausted := by
  rw [step, exit, pending, items]

/-- The session from which an item has been pulled. -/
def Session.pull (s : Session α) (items : List Item) : Session α :=
  { s with items, counts := { s.counts with frames := s.counts.frames + 1 } }

theorem step_of_cons {s : Session α} {item : Item} {items : List Item} (exit : s.exit = none)
    (pending : s.pending = none) (h : s.items = item :: items) :
    pump.step s = pump.handle (s.pull items) item := by
  unfold step
  split
  · simp_all
  · simp_all
  · simp_all
  · obtain ⟨rfl, rfl⟩ := List.cons_eq_cons.1 (h.symm.trans ‹_›)
    rfl

/-- What a step does: nothing once the pump has ended, or it sends what waits, or finds that there
are no more items, or handles the next one. -/
theorem step_cases (s : Session α) :
    (∃ exit, s.exit = some exit ∧ pump.step s = s) ∨
    (∃ outcome, s.exit = none ∧ s.pending = some outcome ∧ pump.step s = pump.send s outcome) ∨
    (s.exit = none ∧ s.pending = none ∧ s.items = [] ∧ pump.step s = pump.finish s .exhausted) ∨
    ∃ item rest, s.exit = none ∧ s.pending = none ∧ s.items = item :: rest ∧
      pump.step s = pump.handle (s.pull rest) item := by
  cases exit : s.exit with
  | some e => exact .inl ⟨e, rfl, step_of_exit pump exit⟩
  | none =>
    cases pending : s.pending with
    | some outcome => exact .inr (.inl ⟨outcome, rfl, rfl, step_of_pending pump exit pending⟩)
    | none =>
      cases left : s.items with
      | nil => exact .inr (.inr (.inl ⟨rfl, rfl, rfl, step_of_nil pump exit pending left⟩))
      | cons item rest =>
        exact .inr (.inr (.inr ⟨item, rest, rfl, rfl, rfl, step_of_cons pump exit pending left⟩))

/-! ### Every step keeps the stage -/

theorem Stage.skip {items before : List Item} (item : Item) {s : Session α}
    (skipped : item.frame? = none) (notLast : item.isLast = false) (exit : s.exit = none)
    (pending : s.pending = none) (split : items = before ++ item :: s.items) (isOpen : Open before)
    (accepted : s.accepted = pump.allOutcomes before) : pump.Stage items s := by
  refine .idle (before ++ [item]) exit pending ?_ (isOpen.append_singleton notLast) ?_
  · rw [split, List.append_cons]
  · rw [allOutcomes_append, allOutcomes_skipped pump skipped, List.append_nil, accepted]

/-- Handling an item that was pulled: it ends the connection, or is a frame, or is skipped. -/
theorem Stage.handle {items before : List Item} {item : Item} {s : Session α}
    (exit : s.exit = none) (pending : s.pending = none) (split : items = before ++ item :: s.items)
    (isOpen : Open before) (accepted : s.accepted = pump.allOutcomes before) :
    pump.Stage items (pump.handle s item) := by
  cases item with
  | text t => exact .sending before _ _ exit rfl split isOpen rfl accepted
  | binary bytes => exact .sending before _ _ exit rfl split isOpen rfl accepted
  | close frame => exact .closed before frame rfl split isOpen accepted
  | failure cause => exact .failed before cause rfl split isOpen accepted
  | ping => exact .skip pump .ping rfl rfl exit pending split isOpen accepted
  | pong => exact .skip pump .pong rfl rfl exit pending split isOpen accepted
  | raw => exact .skip pump .raw rfl rfl exit pending split isOpen accepted

/-- Sending an outcome: it goes into the channel, or waits, or the pump ends. -/
theorem Stage.send {items before : List Item} {item : Item} {raw : List UInt8} {s : Session α}
    (exit : s.exit = none) (pending : s.pending = some (pump.outcome raw))
    (split : items = before ++ item :: s.items) (isOpen : Open before)
    (frame : item.frame? = some raw) (accepted : s.accepted = pump.allOutcomes before) :
    pump.Stage items (pump.send s (pump.outcome raw)) := by
  rw [Pump.send]
  split_ifs with receiving room
  · refine .idle (before ++ [item]) exit rfl ?_
      (isOpen.append_singleton (Item.isLast_of_frame? frame)) ?_
    · rw [split, List.append_cons]
    · rw [allOutcomes_append, allOutcomes_frame pump frame, ← accepted]
  · exact .sending before item raw exit pending split isOpen frame accepted
  · exact .dropped before item raw rfl split isOpen frame accepted (Bool.eq_false_iff.2 receiving)

theorem Stage.step {items : List Item} {s : Session α} (h : pump.Stage items s) :
    pump.Stage items (pump.step s) := by
  cases h with
  | idle before exit pending split isOpen accepted =>
    cases hi : s.items with
    | nil =>
      rw [step_of_nil pump exit pending hi]
      rw [hi, List.append_nil] at split
      subst split
      exact .exhausted rfl hi isOpen accepted
    | cons item rest =>
      rw [step_of_cons pump exit pending hi]
      exact .handle pump exit pending (split.trans (by rw [hi]; rfl)) isOpen accepted
  | sending before item raw exit pending split isOpen frame accepted =>
    rw [step_of_pending pump exit pending]
    exact .send pump exit pending split isOpen frame accepted
  | exhausted exit nothing isOpen accepted =>
    rw [step_of_exit pump exit]
    exact .exhausted exit nothing isOpen accepted
  | closed before frame exit split isOpen accepted =>
    rw [step_of_exit pump exit]
    exact .closed before frame exit split isOpen accepted
  | failed before cause exit split isOpen accepted =>
    rw [step_of_exit pump exit]
    exact .failed before cause exit split isOpen accepted
  | dropped before item raw exit split isOpen frame accepted gone =>
    rw [step_of_exit pump exit]
    exact .dropped before item raw exit split isOpen frame accepted gone

/-- The stage depends on what the pump sees of a session, not on what the receiver has done. -/
theorem Stage.congr {items : List Item} {s s' : Session α} (h : pump.Stage items s)
    (itemsEq : s'.items = s.items) (pendingEq : s'.pending = s.pending)
    (acceptedEq : s'.accepted = s.accepted) (exitEq : s'.exit = s.exit)
    (goneOf : s.receiving = false → s'.receiving = false) : pump.Stage items s' := by
  cases h with
  | idle before exit pending split isOpen accepted =>
    exact .idle before (exitEq.trans exit) (pendingEq.trans pending) (itemsEq ▸ split) isOpen
      (acceptedEq.trans accepted)
  | sending before item raw exit pending split isOpen frame accepted =>
    exact .sending before item raw (exitEq.trans exit) (pendingEq.trans pending)
      (itemsEq ▸ split) isOpen frame (acceptedEq.trans accepted)
  | exhausted exit nothing isOpen accepted =>
    exact .exhausted (exitEq.trans exit) (itemsEq.trans nothing) isOpen (acceptedEq.trans accepted)
  | closed before frame exit split isOpen accepted =>
    exact .closed before frame (exitEq.trans exit) (itemsEq ▸ split) isOpen
      (acceptedEq.trans accepted)
  | failed before cause exit split isOpen accepted =>
    exact .failed before cause (exitEq.trans exit) (itemsEq ▸ split) isOpen
      (acceptedEq.trans accepted)
  | dropped before item raw exit split isOpen frame accepted gone =>
    exact .dropped before item raw (exitEq.trans exit) (itemsEq ▸ split) isOpen frame
      (acceptedEq.trans accepted) (goneOf gone)

/-- Taking moves the head of the queue to the receiver, or does nothing. -/
theorem Session.take_cases (s : Session α) :
    s.take = s ∨ ∃ outcome queue, s.receiving = true ∧ s.queue = outcome :: queue ∧
      s.take = { s with queue, taken := s.taken ++ [outcome] } := by
  unfold Session.take
  split
  · exact .inr ⟨_, _, ‹_›, ‹_›, rfl⟩
  · exact .inl rfl

/-- What the receiver does changes nothing that the pump sees, but for the room in the channel and
for the receiver being gone. -/
theorem move_cases (s : Session α) (m : Move) :
    m = .step ∨ ∃ queue taken receiving, pump.move s m = { s with queue, taken, receiving } ∧
      (s.receiving = false → receiving = false) := by
  cases m with
  | step => exact .inl rfl
  | take =>
    obtain same | ⟨outcome, queue, _, _, taken⟩ := s.take_cases
    · exact .inr ⟨_, _, _, same, id⟩
    · exact .inr ⟨_, _, _, taken, id⟩
  | leave => exact .inr ⟨_, _, _, rfl, fun _ => rfl⟩

theorem Stage.move {items : List Item} {s : Session α} (h : pump.Stage items s) (m : Move) :
    pump.Stage items (pump.move s m) := by
  obtain rfl | ⟨queue, taken, receiving, moved, gone⟩ := pump.move_cases s m
  · exact h.step
  · rw [moved]
    exact h.congr pump rfl rfl rfl rfl gone

/-! ### Where the accepted outcomes are -/

/-- Where the outcomes are that the channel has accepted: with the receiver or in the queue for as
long as the receiver is there. -/
structure Held (s : Session α) : Prop where
  room : s.queue.length ≤ pump.config.capacity
  present : s.receiving = true → s.taken ++ s.queue = s.accepted
  gone : s.receiving = false → s.queue = [] ∧ s.taken <+: s.accepted

theorem Held.begin (items : List Item) : pump.Held (pump.begin items) :=
  ⟨Nat.zero_le _, fun _ => rfl, fun h => absurd h (by simp [Pump.begin])⟩

theorem Held.congr {s s' : Session α} (h : pump.Held s) (queueEq : s'.queue = s.queue)
    (takenEq : s'.taken = s.taken) (acceptedEq : s'.accepted = s.accepted)
    (receivingEq : s'.receiving = s.receiving) : pump.Held s' := by
  obtain ⟨room, present, gone⟩ := h
  constructor
  · rwa [queueEq]
  · rwa [receivingEq, takenEq, queueEq, acceptedEq]
  · rwa [receivingEq, takenEq, queueEq, acceptedEq]

theorem Held.handle {s : Session α} (h : pump.Held s) (item : Item) :
    pump.Held (pump.handle s item) := by
  cases item <;> exact h.congr pump rfl rfl rfl rfl

theorem Held.send {s : Session α} (h : pump.Held s) (outcome : Outcome α) :
    pump.Held (pump.send s outcome) := by
  rw [Pump.send]
  split_ifs with receiving room
  · refine ⟨?_, fun _ => ?_, fun gone => ?_⟩
    · rw [List.length_append, List.length_singleton]
      exact room
    · rw [← h.present receiving, List.append_assoc]
    · exact absurd receiving (Bool.eq_false_iff.1 gone)
  · exact h
  · exact h.congr pump rfl rfl rfl rfl

theorem Held.step {s : Session α} (h : pump.Held s) : pump.Held (pump.step s) := by
  obtain ⟨_, -, same⟩ | ⟨outcome, -, -, sent⟩ | ⟨-, -, -, finished⟩ |
    ⟨item, rest, -, -, -, pulled⟩ := pump.step_cases s
  · rwa [same]
  · rw [sent]
    exact h.send pump outcome
  · rw [finished]
    exact h.congr pump rfl rfl rfl rfl
  · rw [pulled]
    exact Held.handle pump (s := s.pull rest) (h.congr pump rfl rfl rfl rfl) item

theorem Held.take {s : Session α} (h : pump.Held s) : pump.Held s.take := by
  obtain he | ⟨outcome, queue, receiving, hq, he⟩ := s.take_cases
  · rwa [he]
  · rw [he]
    refine ⟨?_, fun _ => ?_, fun gone => absurd receiving (Bool.eq_false_iff.1 gone)⟩
    · refine Nat.le_trans ?_ h.room
      rw [hq, List.length_cons]
      exact Nat.le_succ _
    · rw [← h.present receiving, hq, List.append_assoc, List.singleton_append]

theorem Held.taken_queue_isPrefix {s : Session α} (h : pump.Held s) :
    s.taken ++ s.queue <+: s.accepted := by
  cases hr : s.receiving with
  | true => exact h.present hr ▸ List.prefix_refl _
  | false =>
    obtain ⟨hq, ht⟩ := h.gone hr
    rwa [hq, List.append_nil]

theorem Held.leave {s : Session α} (h : pump.Held s) : pump.Held s.leave :=
  ⟨Nat.zero_le _, fun there => absurd there (by simp [Session.leave]), fun _ =>
    ⟨rfl, (List.prefix_append _ _).trans h.taken_queue_isPrefix⟩⟩

theorem Held.move {s : Session α} (h : pump.Held s) (m : Move) : pump.Held (pump.move s m) := by
  cases m with
  | step => exact h.step
  | take => exact h.take
  | leave => exact h.leave

/-! ### Whole runs -/

/-- What each of the moves keeps holds after all of them. -/
theorem play_induction {P : Session α → Prop} {moves : List Move}
    (hm : ∀ s, ∀ m ∈ moves, P s → P (pump.move s m)) {s : Session α} (h : P s) :
    P (pump.play s moves) := by
  induction moves generalizing s with
  | nil => exact h
  | cons m moves ih =>
    exact ih (fun s m hs => hm s m (List.mem_cons_of_mem _ hs)) (hm s m List.mem_cons_self h)

theorem stage_play (items : List Item) (moves : List Move) :
    pump.Stage items (pump.play (pump.begin items) moves) :=
  pump.play_induction (fun _ m _ h => h.move pump m) (.begin pump items)

theorem held_play (items : List Item) (moves : List Move) :
    pump.Held (pump.play (pump.begin items) moves) :=
  pump.play_induction (fun _ m _ h => h.move pump m) (.begin pump items)

/-- What the channel accepts is a start of the outcomes of the connection, and all of them where
the pump has ended with the receiver still there. -/
theorem Stage.accepted_append {items : List Item} {s : Session α} (h : pump.Stage items s) :
    ∃ rest, pump.outcomes items = s.accepted ++ rest ∧
      (s.exit.isSome = true → s.receiving = true → rest = []) := by
  cases h with
  | idle before exit _ split isOpen accepted =>
    refine ⟨pump.outcomes s.items, ?_, fun ended => ?_⟩
    · rw [accepted, split, outcomes_open_append pump isOpen]
    · simp [exit] at ended
  | sending before item raw exit _ split isOpen frame accepted =>
    refine ⟨pump.outcomes (item :: s.items), ?_, fun ended => ?_⟩
    · rw [accepted, split, outcomes_open_append pump isOpen]
    · simp [exit] at ended
  | exhausted _ _ isOpen accepted =>
    refine ⟨[], ?_, fun _ _ => rfl⟩
    have h := outcomes_open_append pump isOpen []
    rwa [List.append_nil, ← accepted] at h
  | closed before frame _ split isOpen accepted =>
    refine ⟨[], ?_, fun _ _ => rfl⟩
    rw [accepted, split, outcomes_last pump isOpen rfl, List.append_nil]
  | failed before cause _ split isOpen accepted =>
    refine ⟨[], ?_, fun _ _ => rfl⟩
    rw [accepted, split, outcomes_last pump isOpen rfl, List.append_nil]
  | dropped before item raw _ split isOpen frame accepted gone =>
    refine ⟨pump.outcomes (item :: s.items), ?_, fun _ there => ?_⟩
    · rw [accepted, split, outcomes_open_append pump isOpen]
    · simp [gone] at there

theorem receiving_step (s : Session α) : (pump.step s).receiving = s.receiving := by
  obtain ⟨_, -, same⟩ | ⟨outcome, -, -, sent⟩ | ⟨-, -, -, finished⟩ |
    ⟨item, rest, -, -, -, pulled⟩ := pump.step_cases s
  · rw [same]
  · rw [sent, Pump.send]
    split_ifs <;> rfl
  · rw [finished]
    rfl
  · rw [pulled]
    cases item <;> rfl

/-- The receiver is there for as long as it has not left. -/
theorem receiving_play {s : Session α} (h : s.receiving = true) {moves : List Move}
    (never : Move.leave ∉ moves) : (pump.play s moves).receiving = true := by
  refine pump.play_induction (P := fun s => s.receiving = true) (fun s m hm h => ?_) h
  cases m with
  | step => rwa [Pump.move, receiving_step]
  | take =>
    obtain he | ⟨_, _, _, _, he⟩ := s.take_cases
    · rwa [Pump.move, he]
    · rwa [Pump.move, he]
  | leave => exact absurd hm never

/-! ### The item on which a pump ends -/

/-- Whether a pump that ends on an item ends for the given reason. -/
def Item.EndsWith : Item → Exit → Prop
  | .close _, .closed | .failure _, .transportError => True
  | .text _, .receiverDropped | .binary _, .receiverDropped => True
  | _, _ => False

theorem Item.endsWith_receiverDropped {i : Item} {raw : List UInt8} (h : i.frame? = some raw) :
    i.EndsWith .receiverDropped := by
  cases i <;> simp_all [Item.frame?, Item.EndsWith]

/-- A pump that has ended has pulled all items, or those up to the one on which it has ended. -/
theorem Stage.exit_item {items : List Item} {s : Session α} (h : pump.Stage items s) {exit : Exit}
    (he : s.exit = some exit) :
    exit = .exhausted ∧ s.items = [] ∨
      ∃ before item, items = before ++ item :: s.items ∧ Open before ∧ item.EndsWith exit := by
  cases h with
  | idle _ none | sending _ _ _ none => simp [none] at he
  | exhausted some nothing => exact .inl ⟨Option.some.inj (he.symm.trans some), nothing⟩
  | closed before frame some split isOpen =>
    obtain rfl := Option.some.inj (he.symm.trans some)
    exact .inr ⟨before, _, split, isOpen, trivial⟩
  | failed before cause some split isOpen =>
    obtain rfl := Option.some.inj (he.symm.trans some)
    exact .inr ⟨before, _, split, isOpen, trivial⟩
  | dropped before item raw some split isOpen frame =>
    obtain rfl := Option.some.inj (he.symm.trans some)
    exact .inr ⟨before, item, split, isOpen, Item.endsWith_receiverDropped frame⟩

/-- Once the pump has ended no move pulls an item. -/
theorem ended_play {s : Session α} {exit : Exit} (h : s.exit = some exit) (moves : List Move) :
    (pump.play s moves).items = s.items ∧ (pump.play s moves).exit = some exit := by
  refine pump.play_induction (P := fun s' => s'.items = s.items ∧ s'.exit = some exit)
    (fun s' m _ ⟨hi, he⟩ => ?_) ⟨rfl, h⟩
  obtain rfl | ⟨queue, taken, receiving, moved, -⟩ := pump.move_cases s' m
  · rw [Pump.move, step_of_exit pump he]
    exact ⟨hi, he⟩
  · rw [moved]
    exact ⟨hi, he⟩

/-! ### Interchangeable items -/

/-- The session with other items left. -/
def Session.withItems (s : Session α) (items : List Item) : Session α := { s with items }

theorem handle_of_frame? {i : Item} {raw : List UInt8} (h : i.frame? = some raw) (s : Session α) :
    pump.handle s i = pump.read s raw := by
  cases i <;> simp_all [Item.frame?, Pump.handle]

theorem handle_withItems (s : Session α) (items : List Item) {i j : Item} (h : i.Alike j) :
    pump.handle (s.withItems items) j = (pump.handle s i).withItems items := by
  obtain rfl | ⟨raw, hi, hj⟩ := h
  · cases i <;> rfl
  · rw [handle_of_frame? pump hi, handle_of_frame? pump hj]
    rfl

theorem handle_items (s : Session α) (item : Item) : (pump.handle s item).items = s.items := by
  cases item <;> rfl

theorem send_withItems (s : Session α) (items : List Item) (outcome : Outcome α) :
    pump.send (s.withItems items) outcome = (pump.send s outcome).withItems items := by
  by_cases receiving : s.receiving = true
  · by_cases room : s.queue.length < pump.config.capacity
    · simp [Pump.send, Session.withItems, receiving, room]
    · simp [Pump.send, Session.withItems, receiving, room]
  · simp [Pump.send, Session.withItems, Pump.finish, receiving]

theorem send_items (s : Session α) (outcome : Outcome α) :
    (pump.send s outcome).items = s.items := by
  unfold Pump.send
  split_ifs <;> rfl

/-- Two sessions that differ in interchangeable items only do so after a step. -/
theorem step_withItems {s : Session α} {items : List Item}
    (h : List.Forall₂ Item.Alike s.items items) :
    ∃ rest, List.Forall₂ Item.Alike (pump.step s).items rest ∧
      pump.step (s.withItems items) = (pump.step s).withItems rest := by
  obtain ⟨_, exit, same⟩ | ⟨outcome, exit, pending, sent⟩ | ⟨exit, pending, left, finished⟩ |
    ⟨i, rest, exit, pending, left, pulled⟩ := pump.step_cases s
  · rw [same, step_of_exit pump (s := s.withItems items) exit]
    exact ⟨items, h, rfl⟩
  · rw [sent, step_of_pending pump (s := s.withItems items) exit pending, send_items,
      send_withItems]
    exact ⟨items, h, rfl⟩
  · rw [left, List.forall₂_nil_left_iff] at h
    subst h
    rw [finished, step_of_nil pump (s := s.withItems []) exit pending rfl]
    refine ⟨[], ?_, rfl⟩
    rw [show (pump.finish s .exhausted).items = [] from left]
    exact .nil
  · rw [left, List.forall₂_cons_left_iff] at h
    obtain ⟨j, rest', hij, hrest, rfl⟩ := h
    rw [pulled, step_of_cons pump (s := s.withItems (j :: rest')) exit pending rfl, handle_items]
    exact ⟨rest', hrest, handle_withItems pump (s.pull rest) rest' hij⟩

theorem play_withItems {s : Session α} {items : List Item}
    (h : List.Forall₂ Item.Alike s.items items) (moves : List Move) :
    ∃ rest, List.Forall₂ Item.Alike (pump.play s moves).items rest ∧
      pump.play (s.withItems items) moves = (pump.play s moves).withItems rest := by
  induction moves generalizing s items with
  | nil => exact ⟨items, h, rfl⟩
  | cons m moves ih =>
    have key : ∃ rest, List.Forall₂ Item.Alike (pump.move s m).items rest ∧
        pump.move (s.withItems items) m = (pump.move s m).withItems rest := by
      cases m with
      | step => exact step_withItems pump h
      | take =>
        refine ⟨items, ?_, ?_⟩
        · obtain he | ⟨_, _, _, _, he⟩ := s.take_cases
          · rwa [Pump.move, he]
          · rwa [Pump.move, he]
        · simp only [Pump.move, Session.take, Session.withItems]
          split <;> rfl
      | leave => exact ⟨items, h, rfl⟩
    obtain ⟨rest, hrest, he⟩ := key
    obtain ⟨rest', hrest', he'⟩ := ih hrest
    exact ⟨rest', hrest', (congrArg (pump.play · moves) he).trans he'⟩

/-! ### The receiver's view -/

/-- In every state that moves of the pump and its receiver lead to, what the receiver has taken and
what is still queued for it are a start of the outcomes, in their order.  When the pump ends and the
receiver has never left, they are all of the outcomes and all that was sent.  Frames of the same
octets are interchangeable, and a pump pulls no item after the one on which it ends. -/
theorem play_delivers (items : List Item) (moves : List Move) :
    let s := pump.play (pump.begin items) moves
    (s.taken ++ s.queue <+: pump.outcomes items ∧ s.queue.length ≤ pump.config.capacity) ∧
    (s.exit.isSome = true → Move.leave ∉ moves →
      s.accepted = pump.outcomes items ∧ s.taken ++ s.queue = pump.outcomes items) ∧
    (∀ items', List.Forall₂ Item.Alike items items' →
      ∃ rest, List.Forall₂ Item.Alike s.items rest ∧
        pump.play (pump.begin items') moves = s.withItems rest) ∧
    ∀ exit, s.exit = some exit →
      (∀ more, (pump.play s more).items = s.items) ∧
      (exit = .exhausted ∧ s.items = [] ∨
        ∃ before item, items = before ++ item :: s.items ∧ Open before ∧ item.EndsWith exit) := by
  intro s
  have stage : pump.Stage items s := pump.stage_play items moves
  have held : pump.Held s := pump.held_play items moves
  refine ⟨⟨?_, held.room⟩, fun ended never => ?_, fun items' alike => ?_, fun exit he => ⟨?_, ?_⟩⟩
  · obtain ⟨rest, hrest, -⟩ := stage.accepted_append
    exact hrest ▸ held.taken_queue_isPrefix.trans (List.prefix_append _ _)
  · have receiving : s.receiving = true := pump.receiving_play rfl never
    obtain ⟨rest, hrest, hnil⟩ := stage.accepted_append
    rw [hnil ended receiving, List.append_nil] at hrest
    exact ⟨hrest.symm, (held.present receiving).trans hrest.symm⟩
  · exact pump.play_withItems (s := pump.begin items) alike moves
  · exact fun more => (ended_play pump he more).1
  · exact stage.exit_item pump he

end Pump

end MarketFeed
