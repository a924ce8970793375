import MarketFeed.Proofs.Json.View

/-!
# Records as arrays

An array is read as a record exactly if its elements are a row of values for the fields of the
record (`Values.Row`): one for each field and in their order, except that those of the last fields
may be missing where values stand in for them (`Record.read_eq_ok_iff_isRow`).
-/

namespace MarketFeed

namespace Json

open Node

/-- Trees have a value for each field, in their order; at their end those of fields for which values
stand in may be missing. -/
def Values.Row (levels : Nat) : (fields : List Field) → List Node → Values fields → Prop
  | [], ts, () => ts = []
  | f :: fields, [], (x, xs) => f.absence.array? = some x ∧ Row levels fields [] xs
  | f :: fields, t :: ts, (x, xs) => f.codec.read levels t = .ok x ∧ Row levels fields ts xs

/-- Trees are a row of the values that a record is made of. -/
def Record.IsRow {α : Type} (record : Record α) (levels : Nat) (ts : List Node) (a : α) : Prop :=
  ∃ xs, Values.Row levels record.fields ts xs ∧ record.ofValues xs = a

variable {levels : Nat} {fields : List Field}

theorem absent_eq_ok_iff {tooShort : Nat → Fault} {position : Nat} {xs : Values fields} :
    Values.absent tooShort fields position = .ok xs ↔ Values.Row levels fields [] xs := by
  induction fields generalizing position with
  | nil => exact ⟨fun _ => rfl, fun _ => rfl⟩
  | cons f fields ih =>
    obtain ⟨x, xs⟩ := xs
    rw [Values.absent, Values.Row]
    cases f.absence.array? with
    | none => simp
    | some y =>
      constructor
      · intro h
        obtain ⟨xs', hxs, he⟩ := Outcome.map_eq_ok_iff.1 h
        obtain ⟨rfl, rfl⟩ := Prod.mk.inj he
        exact ⟨rfl, ih.1 hxs⟩
      · rintro ⟨h, hxs⟩
        obtain rfl := Option.some.inj h
        exact Outcome.map_eq_ok_iff.2 ⟨xs, ih.2 hxs, rfl⟩

theorem ofElements_eq_ok_iff {tooShort : Nat → Fault} {ending : Ending} {position : Nat}
    {es : List (Spaced Node)} {xs : Values fields} :
    Values.ofElements levels tooShort ending fields position es = .ok xs ↔
      ending.isClosed = true ∧ Values.Row levels fields (es.map (·.value)) xs := by
  induction fields generalizing position es with
  | nil =>
    cases es with
    | nil =>
      refine Outcome.map_eq_ok_iff.trans ?_
      constructor
      · rintro ⟨_, hending, _⟩
        exact ⟨Ending.check_eq_ok_iff.1 hending, rfl⟩
      · rintro ⟨hending, _⟩
        exact ⟨(), Ending.check_eq_ok_iff.2 hending, rfl⟩
    | cons e es =>
      constructor
      · intro h
        cases h
      · rintro ⟨_, h⟩
        cases h
  | cons f fields ih =>
    cases es with
    | nil =>
      refine Outcome.bind_eq_ok_iff.trans ?_
      constructor
      · rintro ⟨_, hending, h⟩
        exact ⟨Ending.check_eq_ok_iff.1 hending, absent_eq_ok_iff.1 h⟩
      · rintro ⟨hending, h⟩
        exact ⟨(), Ending.check_eq_ok_iff.2 hending, absent_eq_ok_iff.2 h⟩
    | cons e es =>
      obtain ⟨x, xs⟩ := xs
      refine Outcome.bind_eq_ok_iff.trans ?_
      constructor
      · rintro ⟨x', hx, h⟩
        obtain ⟨xs', hxs, he⟩ := Outcome.bind_eq_ok_iff.1 h
        obtain ⟨rfl, rfl⟩ := Prod.mk.inj (Except.ok.inj he)
        obtain ⟨hending, hrow⟩ := ih.1 hxs
        exact ⟨hending, hx, hrow⟩
      · rintro ⟨hending, hx, hrow⟩
        exact ⟨x, hx, Outcome.bind_eq_ok_iff.2 ⟨xs, ih.2 ⟨hending, hrow⟩, rfl⟩⟩

/-! ### Lengths -/

theorem Values.Row.length_le {ts : List Node} {xs : Values fields}
    (h : Values.Row levels fields ts xs) : ts.length ≤ fields.length := by
  induction fields generalizing ts with
  | nil =>
    obtain rfl : ts = [] := h
    exact Nat.le_refl 0
  | cons f fields ih =>
    cases ts with
    | nil => exact Nat.zero_le _
    | cons t ts => exact Nat.succ_le_succ (ih h.2)

/-- A row reaches as far as the last field for which no value stands in. -/
theorem Values.Row.lt_length {ts : List Node} {xs : Values fields}
    (h : Values.Row levels fields ts xs) {i : Nat} {f : Field} (hf : fields[i]? = some f)
    (habsent : f.absence.array? = none) : i < ts.length := by
  induction fields generalizing ts i with
  | nil => simp at hf
  | cons g fields ih =>
    cases ts with
    | nil =>
      cases i with
      | zero =>
        obtain rfl : g = f := by simpa using hf
        cases habsent.symm.trans h.1
      | succ i => exact absurd (ih h.2 (by simpa using hf)) (Nat.not_lt_zero i)
    | cons t ts =>
      cases i with
      | zero => exact Nat.succ_pos _
      | succ i => exact Nat.succ_lt_succ (ih h.2 (by simpa using hf))

/-! ### Records -/

variable {α : Type} {record : Record α}

/-- An array is read as a record exactly if its elements are a row of the record. -/
theorem Record.read_eq_ok_iff_isRow {t : Node} (hsound : t.isSound = true) {ts : List Node}
    (hts : t.list? = some ts) {a : α} :
    record.read (levels + 1) t = .ok a ↔ record.IsRow levels ts a := by
  cases t with
  | array es ending =>
    obtain rfl := Option.some.inj hts
    have hending : ending.isClosed = true := by
      rw [isSound, Bool.and_eq_true] at hsound
      exact hsound.2
    rw [Record.read, Outcome.map_eq_ok_iff, IsRow]
    simp only [ofElements_eq_ok_iff, hending, true_and]
  | _ => cases hts

/-- A row has a value for each field up to the last one for which no value stands in. -/
theorem Record.IsRow.length_mem {ts : List Node} {a : α} (h : record.IsRow levels ts a) {i : Nat}
    {f : Field} (hf : record.fields[i]? = some f) (habsent : f.absence.array? = none) :
    i < ts.length ∧ ts.length ≤ record.fields.length := by
  obtain ⟨xs, hrow, _⟩ := h
  exact ⟨hrow.lt_length hf habsent, hrow.length_le⟩

end Json

end MarketFeed
