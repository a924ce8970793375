import MarketFeed.Proofs.Pump.Running

/-!
# Narration

The log of a pump tells what the pump has done.  `Pump.remarks` is what it says of an item and
`Pump.farewell` what it says at its end; every move keeps the log a story of the items that have
been pulled (`Tells`).  So the reports of frames can be counted and put beside the outcomes that
were offered to the channel.
-/

namespace MarketFeed

/-- The events of the pump among log entries. -/
def Log.ofPump (entries : List Log.Entry) : List Log.Event :=
  (entries.filter fun entry => entry.source = .pump).map (·.event)

@[simp] theorem Log.ofPump_append (entries entries' : List Log.Entry) :
    Log.ofPump (entries ++ entries') = Log.ofPump entries ++ Log.ofPump entries' := by
  simp [Log.ofPump]

@[simp] theorem Log.ofPump_feed (events : List Log.Event) :
    Log.ofPump (events.map (⟨.feed, ·⟩)) = [] := by
  simp [Log.ofPump, List.filter_eq_nil_iff]

namespace Pump

variable {α : Type} (pump : Pump α)

/-! ### What a pump says -/

/-- An event of the pump, which names its exchange. -/
def event (level : Log.Level) (message : String) (fields : List (String × Log.Value)) :
    Log.Event :=
  ⟨level, message, ("exchange", .text pump.feed.name) :: fields⟩

/-- What the pump says first. -/
def greeting : Log.Event := pump.event .info "frame pump started" []

/-- What the pump says of a frame. -/
def verdict (raw : List UInt8) : Log.Event :=
  match pump.outcome raw with
  | .ok _ => pump.event .debug "frame decoded" [("bytes", .count raw.length)]
  | .error e =>
    pump.event .warn "frame decode failed" [
      ("error", .text e.message),
      ("bytes", .count raw.length),
      ("raw", .text (pump.preview raw))]

/-- What the pump says of an item. -/
def remarks : Item → List Log.Event
  | .text s => [pump.verdict (octets s)]
  | .binary bytes => [pump.verdict bytes]
  | .ping | .pong | .raw => []
  | .close frame => [pump.event .info "connection closed by peer" [("frame", .text frame)]]
  | .failure cause => [pump.event .warn "websocket read failed" [("error", .text cause)]]

/-- What the pump says at its end. -/
def farewell (counts : Counts) (exit : Exit) : List Log.Event :=
  (if exit = .receiverDropped then [pump.event .debug "event receiver dropped" []] else []) ++
    [pump.event .info "frame pump stopped" [
      ("frames", .count counts.frames),
      ("decoded", .count counts.decoded),
      ("failed", .count counts.failed),
      ("skipped", .count counts.skipped),
      ("exit", .text exit.text)]]

theorem remarks_of_frame? {item : Item} {raw : List UInt8} (h : item.frame? = some raw) :
    pump.remarks item = [pump.verdict raw] := by
  cases item <;> simp_all [Item.frame?, remarks]

theorem ofPump_frameReport (raw : List UInt8) :
    Log.ofPump [pump.frameReport raw (pump.feed.read raw).result] = [pump.verdict raw] := by
  unfold verdict outcome
  cases (pump.feed.read raw).result <;> rfl

/-! ### Every move goes on with the story -/

/-- The log is the story of the items that have been pulled, and of the end if it has come, after
which nothing waits to be sent. -/
structure Tells (s : Session α) (pulled : List Item) : Prop where
  log : Log.ofPump s.log = pump.greeting :: pulled.flatMap pump.remarks ++
    s.exit.elim [] (pump.farewell s.counts)
  settled : s.exit.isSome = true → s.pending = none

theorem Tells.begin (items : List Item) : pump.Tells (pump.begin items) [] := ⟨rfl, nofun⟩

/-- The story of a session that has not ended goes on as its log does. -/
theorem Tells.extend {s s' : Session α} {pulled : List Item} (h : pump.Tells s pulled)
    (running : s.exit = none) {items : List Item} {entries : List Log.Entry}
    (logEq : s'.log = s.log ++ entries)
    (entriesEq : Log.ofPump entries = items.flatMap pump.remarks ++
      s'.exit.elim [] (pump.farewell s'.counts))
    (settled : s'.exit.isSome = true → s'.pending = none) : pump.Tells s' (pulled ++ items) := by
  refine ⟨?_, settled⟩
  -- Before the end the story has no farewell in it, so what follows can be put behind it.
  have before : Log.ofPump s.log = pump.greeting :: pulled.flatMap pump.remarks := by
    simpa [running] using h.log
  rw [logEq, Log.ofPump_append, before, entriesEq, List.flatMap_append]
  simp

/-- A pump that has not pulled another item says nothing more than its farewell. -/
theorem Tells.ending {s s' : Session α} {pulled : List Item} (h : pump.Tells s pulled)
    (running : s.exit = none) {entries : List Log.Entry} (logEq : s'.log = s.log ++ entries)
    (entriesEq : Log.ofPump entries = s'.exit.elim [] (pump.farewell s'.counts))
    (settled : s'.exit.isSome = true → s'.pending = none) : pump.Tells s' pulled := by
  have told : pump.Tells s' (pulled ++ []) := h.extend pump running logEq entriesEq settled
  rwa [List.append_nil] at told

/-- Pulling an item changes the counts, which the pump does not tell before its end. -/
theorem Tells.pull {s : Session α} {pulled rest : List Item} (h : pump.Tells s pulled)
    (running : s.exit = none) : pump.Tells (s.pull rest) pulled := by
  have still : (s.pull rest).exit = none := running
  refine ⟨?_, h.settled⟩
  rw [still, ← running]
  exact h.log.trans (by rw [running]; rfl)

theorem Tells.read {s : Session α} {pulled : List Item} (h : pump.Tells s pulled)
    (running : s.exit = none) {item : Item} {raw : List UInt8} (frame : item.frame? = some raw) :
    pump.Tells (pump.read s raw) (pulled ++ [item]) := by
  refine h.extend pump running (List.append_assoc ..) ?_ fun ended => ?_
  · have still : (pump.read s raw).exit = none := running
    rw [Log.ofPump_append, Log.ofPump_feed, ofPump_frameReport, still, List.flatMap_singleton,
      remarks_of_frame? pump frame]
    rfl
  · exact absurd ended (by simp [Pump.read, running])

/-- On an item the pump says what it has to say of it, and its farewell if it ends. -/
theorem Tells.handle {s : Session α} {pulled : List Item} (h : pump.Tells s pulled)
    (running : s.exit = none) (pending : s.pending = none) (item : Item) :
    pump.Tells (pump.handle s item) (pulled ++ [item]) := by
  -- Of an item that is passed over nothing is said, and what changes is a count.
  have skip (silent : pump.remarks item = []) (counts : Counts) :
      pump.Tells { s with counts } (pulled ++ [item]) := by
    refine h.extend pump running (List.append_nil _).symm ?_ fun _ => pending
    rw [List.flatMap_singleton, silent, running]
    rfl
  cases item with
  | text s => exact h.read pump running rfl
  | binary bytes => exact h.read pump running rfl
  | close frame => exact h.extend pump running (List.append_assoc ..) rfl fun _ => rfl
  | failure cause => exact h.extend pump running (List.append_assoc ..) rfl fun _ => rfl
  | ping | pong | raw => exact skip rfl _

/-- Sending says nothing, but for the farewell of a pump that finds no receiver. -/
theorem Tells.send {s : Session α} {pulled : List Item} (h : pump.Tells s pulled)
    (running : s.exit = none) (outcome : Outcome α) :
    pump.Tells (pump.send s outcome) pulled := by
  unfold Pump.send
  split_ifs
  · exact ⟨h.log, fun _ => rfl⟩
  · exact h
  · exact h.ending pump running (List.append_assoc ..) rfl fun _ => rfl

/-- The log of a session tells of the items that are no longer in it. -/
def Told (items : List Item) (s : Session α) : Prop :=
  ∃ pulled, items = pulled ++ s.items ∧ pump.Tells s pulled

theorem Told.step {items : List Item} {s : Session α} (h : pump.Told items s) :
    pump.Told items (pump.step s) := by
  obtain ⟨before, split, tells⟩ := h
  obtain ⟨exit, -, same⟩ | ⟨outcome, running, -, sent⟩ | ⟨running, -, -, finished⟩ |
    ⟨item, rest, running, pending, left, pulled⟩ := pump.step_cases s
  · rw [same]
    exact ⟨before, split, tells⟩
  · rw [sent]
    refine ⟨before, ?_, tells.send pump running outcome⟩
    rwa [send_items]
  · rw [finished]
    exact ⟨before, split, tells.ending pump running rfl rfl fun _ => rfl⟩
  · rw [pulled]
    refine ⟨before ++ [item], ?_, (tells.pull pump running).handle pump running pending item⟩
    rw [handle_items, split, left, List.append_assoc]
    rfl

theorem Told.move {items : List Item} {s : Session α} (h : pump.Told items s) (m : Move) :
    pump.Told items (pump.move s m) := by
  obtain rfl | ⟨queue, taken, receiving, moved, -⟩ := pump.move_cases s m
  · exact h.step
  · rw [moved]
    obtain ⟨before, split, tells⟩ := h
    exact ⟨before, split, tells.log, tells.settled⟩

theorem told_play (items : List Item) (moves : List Move) :
    pump.Told items (pump.play (pump.begin items) moves) :=
  pump.play_induction (fun _ m _ h => h.move pump m) ⟨[], rfl, .begin pump items⟩

/-! ### The reports of frames -/

/-- Whether an event tells how the reading of a frame went. -/
def isVerdict (e : Log.Event) : Bool :=
  e.message = "frame decoded" || e.message = "frame decode failed"

theorem verdict_message (raw : List UInt8) :
    (pump.verdict raw).message =
      if (pump.outcome raw).isOk then "frame decoded" else "frame decode failed" := by
  unfold verdict
  cases pump.outcome raw <;> rfl

theorem isVerdict_verdict (raw : List UInt8) : isVerdict (pump.verdict raw) = true := by
  rw [isVerdict, verdict_message]
  split_ifs <;> rfl

/-- Only frames are reported on as such. -/
theorem filter_remarks (item : Item) :
    (pump.remarks item).filter isVerdict = item.frame?.toList.map pump.verdict := by
  cases item with
  | text s => exact List.filter_cons_of_pos (pump.isVerdict_verdict _)
  | binary bytes => exact List.filter_cons_of_pos (pump.isVerdict_verdict _)
  | ping | pong | raw | close | failure => rfl

theorem filter_flatMap_remarks (items : List Item) :
    (items.flatMap pump.remarks).filter isVerdict =
      (items.filterMap Item.frame?).map pump.verdict := by
  simp only [List.filter_flatMap, filter_remarks, List.filterMap_eq_flatMap_toList,
    List.map_flatMap]

theorem filter_farewell (counts : Counts) (exit : Exit) :
    (pump.farewell counts exit).filter isVerdict = [] := by
  cases exit <;> rfl

/-- The reports of frames are those of the frames that have been pulled. -/
theorem Tells.verdicts {s : Session α} {pulled : List Item} (h : pump.Tells s pulled) :
    (Log.ofPump s.log).filter isVerdict = (pulled.filterMap Item.frame?).map pump.verdict := by
  have ending : (s.exit.elim [] (pump.farewell s.counts)).filter isVerdict = [] := by
    cases s.exit with
    | none => rfl
    | some exit => exact pump.filter_farewell s.counts exit
  have greeting : isVerdict pump.greeting = false := rfl
  rw [h.log, List.cons_append, List.filter_cons_of_neg (by simp [greeting]), List.filter_append,
    ending, List.append_nil, filter_flatMap_remarks]

/-- A log has as many reports of a kind as there are outcomes of that kind. -/
theorem Tells.countP_message {s : Session α} {pulled : List Item} (h : pump.Tells s pulled)
    {message : String} {kind : Outcome α → Bool}
    (isReport : ∀ e : Log.Event, e.message = message → isVerdict e = true)
    (isKind : ∀ raw, (pump.verdict raw).message = message ↔ kind (pump.outcome raw) = true) :
    (Log.ofPump s.log).countP (fun e => e.message = message) =
      (pump.allOutcomes pulled).countP kind := by
  have verdicts := congrArg (List.countP fun e => e.message = message) (h.verdicts pump)
  rw [List.countP_filter, List.countP_map] at verdicts
  rw [allOutcomes, List.countP_map]
  refine Eq.trans ?_ (verdicts.trans ?_)
  · exact List.countP_congr fun e _ => by simpa using isReport e
  · exact List.countP_congr fun raw _ => by simpa using isKind raw

/-! ### The story of a run -/

/-- What the channel was offered is what it has accepted, and then the outcome that waits for room
or the one that found no receiver. -/
theorem Stage.offered {items pulled : List Item} {s : Session α} (h : pump.Stage items s)
    (split : items = pulled ++ s.items) (settled : s.exit.isSome = true → s.pending = none) :
    ∃ refused : Option (Outcome α), (refused.isSome = true ↔ s.exit = some .receiverDropped) ∧
      s.accepted ++ s.pending.toList ++ refused.toList = pump.allOutcomes pulled := by
  cases h with
  | idle before exit pending before_split _ accepted =>
    obtain rfl := List.append_cancel_right (split.symm.trans before_split)
    exact ⟨none, by simp [exit], by simp [pending, accepted]⟩
  | sending before item raw exit pending last _ frame accepted =>
    rw [pulled_eq_concat split last, allOutcomes_append, allOutcomes_frame pump frame]
    exact ⟨none, by simp [exit], by simp [pending, accepted]⟩
  | exhausted exit nothing _ accepted =>
    rw [nothing, List.append_nil] at split
    subst split
    exact ⟨none, by simp [exit], by simp [settled, exit, accepted]⟩
  | closed before frame exit last _ accepted =>
    rw [pulled_eq_concat split last, allOutcomes_append, allOutcomes_skipped pump rfl]
    exact ⟨none, by simp [exit], by simp [settled, exit, accepted]⟩
  | failed before cause exit last _ accepted =>
    rw [pulled_eq_concat split last, allOutcomes_append, allOutcomes_skipped pump rfl]
    exact ⟨none, by simp [exit], by simp [settled, exit, accepted]⟩
  | dropped before item raw exit last _ frame accepted =>
    rw [pulled_eq_concat split last, allOutcomes_append, allOutcomes_frame pump frame]
    exact ⟨some (pump.outcome raw), by simp [exit], by simp [settled, exit, accepted]⟩

/-- How the log of a session, its counts, what was offered to the channel and the items that were
pulled hang together. -/
structure Narrates (s : Session α) (pulled : List Item) : Prop extends pump.Tells s pulled where
  decoded : s.counts.decoded =
    .ofNat ((Log.ofPump s.log).countP fun e => e.message = "frame decoded")
  failed : s.counts.failed =
    .ofNat ((Log.ofPump s.log).countP fun e => e.message = "frame decode failed")
  /-- No count has started again, so the reports are as many as the counts say. -/
  exact : pulled.length < UInt64.size →
    (Log.ofPump s.log).countP (fun e => e.message = "frame decoded") = s.counts.decoded.toNat ∧
    (Log.ofPump s.log).countP (fun e => e.message = "frame decode failed") =
      s.counts.failed.toNat
  /-- The reports of frames agree with what was offered: what the channel has accepted, and then
  the outcome that waits for room or the one that found no receiver. -/
  offered : ∃ refused : Option (Outcome α),
    (refused.isSome = true ↔ s.exit = some .receiverDropped) ∧
    s.accepted ++ s.pending.toList ++ refused.toList = pump.allOutcomes pulled ∧
    List.Forall₂
      (fun e o => e.message = if o.isOk then "frame decoded" else "frame decode failed")
      ((Log.ofPump s.log).filter isVerdict)
      (s.accepted ++ s.pending.toList ++ refused.toList)

theorem Narrates.of_tells {items pulled : List Item} {s : Session α}
    (stage : pump.Stage items s) (split : items = pulled ++ s.items)
    (tallies : pump.Tallies s.counts pulled) (tells : pump.Tells s pulled) :
    pump.Narrates s pulled := by
  obtain ⟨refused, dropped, offered⟩ := stage.offered pump split tells.settled
  have decoded : (Log.ofPump s.log).countP (fun e => e.message = "frame decoded") =
      (pump.allOutcomes pulled).countP fun o => o.isOk :=
    tells.countP_message pump (by simp +contextual [isVerdict]) (by simp [verdict_message])
  have failed : (Log.ofPump s.log).countP (fun e => e.message = "frame decode failed") =
      (pump.allOutcomes pulled).countP fun o => !o.isOk :=
    tells.countP_message pump (by simp +contextual [isVerdict]) (by simp [verdict_message])
  refine ⟨tells, ?_, ?_, fun few => ?_, refused, dropped, offered, ?_⟩
  · rw [decoded, tallies.decoded]
  · rw [failed, tallies.failed]
  · have exact := tallies.exact pump few
    exact ⟨decoded.trans exact.decoded.symm, failed.trans exact.failed.symm⟩
  · rw [offered, tells.verdicts, allOutcomes, List.forall₂_map_left_iff, List.forall₂_map_right_iff,
      List.forall₂_same]
    exact fun raw _ => pump.verdict_message raw

/-- The log of a session tells of the items that are no longer in it, and agrees with its counts
and its channel. -/
def Narrated (items : List Item) (s : Session α) : Prop :=
  ∃ pulled, items = pulled ++ s.items ∧ pump.Narrates s pulled

theorem narrated_play (items : List Item) (moves : List Move) :
    pump.Narrated items (pump.play (pump.begin items) moves) := by
  obtain ⟨pulled, split, tells⟩ := pump.told_play items moves
  obtain ⟨pulled', split', tallies⟩ := pump.tallied_play items moves
  -- The log and the counts are about the same items: those that are no longer in the session.
  obtain rfl := List.append_cancel_right (split'.symm.trans split)
  exact ⟨pulled', split, .of_tells pump (pump.stage_play items moves) split tallies tells⟩

/-- In every state that moves of the pump and its receiver lead to, the pump has logged its start,
then what it has to say of each item it has pulled, in their order, and if it has ended its end with
the counts and the reason.  The reports of frames are as many as were counted, and tell the
outcomes that were offered to the channel, one by one.  While the receiver takes all it can the
pump does come to its end, at whatever item the receiver leaves. -/
theorem play_narrates (items : List Item) :
    (∀ moves, pump.Narrated items (pump.play (pump.begin items) moves)) ∧
    ∀ leaves : List Bool, leaves.length = items.length →
      let s := pump.run (items.zip leaves)
      s.exit.isSome = true ∧ pump.Narrated items s := by
  refine ⟨pump.narrated_play items, fun leaves hlength => ⟨pump.run_ends _, ?_⟩⟩
  obtain ⟨moves, hmoves⟩ := pump.reaches_run (items.zip leaves)
  rw [List.map_fst_zip (Nat.le_of_eq hlength.symm)] at hmoves
  rw [hmoves]
  exact pump.narrated_play items moves

/-- A pump that reads every frame but the empty one. -/
def choosy : Pump Unit where
  feed :=
    { name := ""
      topic := fun _ => .ok ""
      read := fun raw => ⟨if raw = [] then .error (.topicFormat "") else .ok (), []⟩ }
  config := {}

/-- The receiver leaves before the second frame, which cannot be read. -/
theorem play_narrates_refused :
    let items := [.text "1", .ping, .binary [], .text "1"]
    let s := choosy.run (items.zip [false, false, true, false])
    s.counts = ⟨3, 1, 1, 1⟩ ∧
      (Log.ofPump s.log).map (·.message) =
        ["frame pump started", "frame decoded", "frame decode failed", "event receiver dropped",
          "frame pump stopped"] ∧
      s.exit.isSome = true ∧ choosy.Narrated items s :=
  ⟨rfl, rfl, (choosy.play_narrates _).2 _ rfl⟩

end Pump

end MarketFeed
