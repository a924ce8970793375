import MarketFeed.Proofs.Pump.Accounting

/-!
# Running

A pump that runs while its receiver takes all it can before each item comes to an end, whenever the
receiver goes away.  `Pump.run` only makes moves that a session has (`reaches_run`), so what holds
after all moves holds of its result, and `Paced` says how far it has come: between two items
nothing waits to be sent, so the next item is always pulled.
-/

namespace MarketFeed

namespace Pump

variable {α : Type} (pump : Pump α)

/-! ### Moves between two sessions -/

/-- Whether moves lead from one session to another. -/
def Reaches (s s' : Session α) : Prop := ∃ moves, s' = pump.play s moves

theorem Reaches.trans {s s' s'' : Session α} (h : pump.Reaches s s') (h' : pump.Reaches s' s'') :
    pump.Reaches s s'' := by
  obtain ⟨moves, rfl⟩ := h
  obtain ⟨moves', rfl⟩ := h'
  exact ⟨moves ++ moves', List.foldl_append.symm⟩

theorem reaches_move (s : Session α) (m : Move) : pump.Reaches s (pump.move s m) := ⟨[m], rfl⟩

theorem reaches_drain (s : Session α) : pump.Reaches s (pump.drain s) := ⟨_, rfl⟩

theorem reaches_advance (s : Session α) : pump.Reaches s (pump.advance s) := by
  unfold advance
  dsimp only
  split_ifs
  · exact .trans pump (reaches_move pump s .step) (reaches_move pump _ .step)
  · exact reaches_move pump s .step

theorem reaches_runFrom (s : Session α) (leaves : List Bool) :
    pump.Reaches s (pump.runFrom s leaves) := by
  induction leaves generalizing s with
  | nil =>
    refine .trans pump (reaches_drain pump s) (.trans pump ?_ (reaches_drain pump _))
    exact reaches_move pump _ .step
  | cons leave leaves ih =>
    rw [runFrom]
    have drained := reaches_drain pump s
    split_ifs
    · exact drained
    · exact drained.trans pump ((reaches_move pump _ .leave).trans pump
        ((reaches_advance pump _).trans pump (ih _)))
    · exact drained.trans pump ((reaches_advance pump _).trans pump (ih _))

theorem reaches_run (schedule : List (Item × Bool)) :
    pump.Reaches (pump.begin (schedule.map (·.1))) (pump.run schedule) :=
  reaches_runFrom pump _ _

/-! ### A receiver that takes all it can -/

theorem queue_drain {s : Session α} (h : s.receiving = true) : (pump.drain s).queue = [] := by
  suffices ∀ queue, s.queue = queue →
      (pump.play s (List.replicate queue.length .take)).queue = [] from this s.queue rfl
  intro queue hq
  induction queue generalizing s with
  | nil => exact hq
  | cons outcome queue ih =>
    have taken : s.take = { s with queue, taken := s.taken ++ [outcome] } := by
      rw [Session.take, h, hq]
    rw [List.length_cons, List.replicate_succ, play, List.foldl_cons, Pump.move, taken]
    exact ih (s := { s with queue, taken := s.taken ++ [outcome] }) h rfl

/-- Taking changes nothing that the pump sees, but for the room in the channel. -/
theorem play_takes (s : Session α) (n : Nat) :
    let s' := pump.play s (List.replicate n .take)
    s'.items = s.items ∧ s'.pending = s.pending ∧ s'.exit = s.exit ∧
      s'.receiving = s.receiving := by
  refine pump.play_induction (P := fun s' => s'.items = s.items ∧ s'.pending = s.pending ∧
    s'.exit = s.exit ∧ s'.receiving = s.receiving) (fun s' m hm h => ?_) ⟨rfl, rfl, rfl, rfl⟩
  obtain rfl := List.eq_of_mem_replicate hm
  obtain same | ⟨_, _, _, _, taken⟩ := s'.take_cases
  · rwa [Pump.move, same]
  · rw [Pump.move, taken]
    exact h

/-! ### From item to item -/

/-- A session between two items: as long as the pump has not ended nothing waits to be sent, and
the given number of items is left. -/
structure Paced (s : Session α) (left : Nat) : Prop where
  pending : s.exit = none → s.pending = none
  items : s.exit = none → s.items.length = left

theorem Paced.of_exit {s : Session α} (h : s.exit.isSome = true) (left : Nat) : Paced s left := by
  constructor <;> intro none <;> simp [none] at h

theorem Paced.drain {s : Session α} {left : Nat} (h : Paced s left) :
    Paced (pump.drain s) left := by
  obtain ⟨items, pending, exit, -⟩ := pump.play_takes s s.queue.length
  constructor
  · intro running
    exact pending.trans (h.pending (exit.symm.trans running))
  · intro running
    exact (congrArg List.length items).trans (h.items (exit.symm.trans running))

theorem Paced.leave {s : Session α} {left : Nat} (h : Paced s left) : Paced s.leave left :=
  ⟨h.pending, h.items⟩

theorem Config.capacity_pos (c : Config) : 0 < c.capacity :=
  Nat.lt_of_lt_of_le Nat.one_pos (Nat.le_max_right _ _)

/-- An outcome that is sent into an empty channel does not wait. -/
theorem paced_send {s : Session α} (room : s.receiving = true → s.queue = [])
    (outcome : Outcome α) : Paced (pump.send s outcome) s.items.length := by
  unfold Pump.send
  split_ifs with receiving full
  · exact ⟨fun _ => rfl, fun _ => rfl⟩
  · rw [room receiving] at full
    exact absurd pump.config.capacity_pos full
  · exact .of_exit rfl _

/-- On an item that ends the connection the pump ends. -/
theorem exit_handle_of_isLast {item : Item} (h : item.isLast = true) (s : Session α) :
    (pump.handle s item).exit.isSome = true ∧ (pump.handle s item).pending = none := by
  cases item <;> simp_all [Item.isLast, Pump.handle, Pump.finish]

/-- Between two items the pump pulls the next one, and sends its outcome if it has one. -/
theorem Paced.advance {s : Session α} {left : Nat} (h : Paced s (left + 1))
    (running : s.exit = none) (room : s.receiving = true → s.queue = []) :
    Paced (pump.advance s) left := by
  have waiting := h.pending running
  obtain ⟨item, rest, hitems⟩ := List.exists_cons_of_length_eq_add_one (h.items running)
  obtain rfl : rest.length = left := by
    have := h.items running
    rw [hitems] at this
    exact Nat.succ.inj this
  have pulled := step_of_cons pump running waiting hitems
  obtain ⟨raw, frame⟩ | ⟨-, control⟩ | ⟨-, last⟩ := item.frame_or_control_or_last
  · -- A frame takes two steps: it is read, and then its outcome is sent into the empty channel.
    rw [handle_of_frame? pump frame] at pulled
    rw [Pump.advance, pulled, if_pos (by rfl),
      step_of_pending pump (s := pump.read (s.pull rest) raw) running rfl]
    exact paced_send pump (s := pump.read (s.pull rest) raw) room _
  · rw [handle_of_isControl pump control] at pulled
    rw [Pump.advance, pulled, if_neg (by simp [Session.pull, waiting])]
    exact ⟨fun _ => waiting, fun _ => rfl⟩
  · obtain ⟨ended, nothing⟩ := exit_handle_of_isLast pump last (s.pull rest)
    rw [Pump.advance, pulled, if_neg (by simp [nothing])]
    exact .of_exit ended _

/-- A run over as many items as are left ends. -/
theorem Paced.runFrom {s : Session α} {leaves : List Bool} (h : Paced s leaves.length) :
    (pump.runFrom s leaves).exit.isSome = true := by
  induction leaves generalizing s with
  | nil =>
    -- No item is left, so the last step is the one that finds this out.
    have drained := h.drain pump
    have ended : (pump.step (pump.drain s)).exit.isSome = true := by
      cases running : (pump.drain s).exit with
      | some exit =>
        rw [step_of_exit pump running, running]
        rfl
      | none =>
        have nothing := List.length_eq_zero_iff.1 (drained.items running)
        rw [step_of_nil pump running (drained.pending running) nothing]
        rfl
    rw [Pump.runFrom, Pump.drain, (pump.play_takes _ _).2.2.1]
    exact ended
  | cons leave leaves ih =>
    rw [Pump.runFrom]
    have drained := h.drain pump
    obtain ⟨-, -, exit, receiving⟩ := pump.play_takes s s.queue.length
    by_cases ended : s.exit.isSome = true
    · rwa [if_pos ended, Pump.drain, exit]
    · rw [if_neg ended]
      have running : (pump.drain s).exit = none :=
        exit.trans (Option.not_isSome_iff_eq_none.1 ended)
      cases leave with
      | true => exact ih (drained.leave.advance pump running nofun)
      | false =>
        exact ih (drained.advance pump running fun there =>
          queue_drain pump (receiving.symm.trans there))

/-- Every run ends, whenever the receiver goes away. -/
theorem run_ends (schedule : List (Item × Bool)) : (pump.run schedule).exit.isSome = true := by
  refine Paced.runFrom pump ⟨fun _ => rfl, fun _ => ?_⟩
  rw [Pump.begin, List.length_map, List.length_map]

end Pump

end MarketFeed
