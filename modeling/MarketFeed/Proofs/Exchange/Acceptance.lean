import Mathlib.Tactic.SplitIfs
import MarketFeed.Proofs.Exchange.Frame
import MarketFeed.Proofs.Exchange.Push

/-!
# What counts as an acknowledgement

A feed passes on the acknowledgements that are acceptable (`Acknowledgement.IsAcceptable`) and turns
every other one into an error that carries it; pushes and malformed frames lead to neither.  So a
frame that does not say that the operation has succeeded is passed on for a pong only.
-/

namespace MarketFeed

open Json Json.Node

/-- What a connection asks for is not one of the known operations. -/
def Operation.IsUnknown (op : Operation) : Prop := ∃ raw, op = .unknown raw

theorem Operation.eq_of_ofText_pong {s : String} (h : ofText s = .pong) : s = "pong" := by
  unfold ofText at h
  split_ifs at h with hping hpong
  exact hpong

/-- The exchange has done what the operation asks. -/
def Acknowledgement.IsAcceptable (a : Acknowledgement) : Prop :=
  match a.op with
  | .pong => True
  | .subscribe => a.success = true
  | .ping => a.success = true ∧ a.retMsg = "pong"
  | .auth => a.success = true ∧ a.retMsg = ""
  | .unknown _ => False

/-- A frame does not say that the operation has succeeded: there is no value for that, or it is null
or false. -/
def Json.Node.DeniesSuccess (t : Node) : Prop :=
  ∀ v ∈ t.fieldValues ["success"] 0, v = .null ∨ v = .bool false

/-- The operation of a frame is the text of a pong. -/
def Json.Node.IsPong (t : Node) : Prop :=
  ∃ body, t.fieldValues ["op"] 4 = [.string body] ∧ StringPart.decode? body = some "pong"

/-- What becomes of a frame whose octets are given. -/
structure Judged (raw : List UInt8) (outcome : Except FeedError Event) : Prop where
  acknowledged : ∀ a, outcome = .ok (.acknowledgement a) ↔
    Envelope.decode raw = .ok (.acknowledgement a) ∧ a.IsAcceptable
  unknown : ∀ a, Envelope.decode raw = .ok (.acknowledgement a) → ¬a.IsAcceptable →
    a.op.IsUnknown → outcome = .error (.unknownOperation a)
  rejected : ∀ a, Envelope.decode raw = .ok (.acknowledgement a) → ¬a.IsAcceptable →
    ¬a.op.IsUnknown → outcome = .error (.notAccepted a)
  operational : ∀ e, outcome = .error e →
    (e.isOperational = true ↔ ∃ a, Envelope.decode raw = .ok (.acknowledgement a))
  others : (∀ a, Envelope.decode raw ≠ .ok (.acknowledgement a)) →
    (∀ a, outcome ≠ .ok (.acknowledgement a)) ∧ ∀ e, outcome = .error e → e.isOperational = false
  successful : ∀ a, outcome = .ok (.acknowledgement a) →
    ∃ t, Spells raw t ∧ (t.DeniesSuccess → t.IsPong)

/-! ### Acknowledgements -/

namespace Acknowledgement

theorem isAccepted_iff (a : Acknowledgement) : a.isAccepted = true ↔ a.IsAcceptable := by
  unfold isAccepted IsAcceptable
  cases a.op with
  | ping => simp [Operation.text]
  | auth => simp
  | pong | subscribe | unknown => simp

theorem check_of_isAcceptable {a : Acknowledgement} (h : a.IsAcceptable) : a.check = .ok () := by
  have haccepted := (isAccepted_iff a).2 h
  unfold check
  cases hop : a.op with
  | unknown raw => simp [IsAcceptable, hop] at h
  | _ => exact if_pos haccepted

theorem check_of_isUnknown {a : Acknowledgement} (h : a.op.IsUnknown) :
    a.check = .error (.unknownOperation a) := by
  obtain ⟨raw, hop⟩ := h
  unfold check
  rw [hop]

theorem check_of_not {a : Acknowledgement} (h : ¬a.IsAcceptable) (hop : ¬a.op.IsUnknown) :
    a.check = .error (.notAccepted a) := by
  have hrejected : ¬a.isAccepted = true := fun haccepted => h ((isAccepted_iff a).1 haccepted)
  unfold check
  cases hop' : a.op with
  | unknown raw => exact absurd ⟨raw, hop'⟩ hop
  | _ => exact if_neg hrejected

/-- An operation that has not succeeded counts for a pong only. -/
theorem op_of_isAcceptable {a : Acknowledgement} (h : a.IsAcceptable) (hfails : a.success = false) :
    a.op = .pong := by
  unfold IsAcceptable at h
  rw [hfails] at h
  cases hop : a.op with
  | pong => rfl
  | _ => simp [hop] at h

theorem check_eq_ok_iff (a : Acknowledgement) : a.check = .ok () ↔ a.IsAcceptable := by
  refine ⟨fun hcheck => ?_, check_of_isAcceptable⟩
  by_contra h
  by_cases hop : a.op.IsUnknown
  · rw [check_of_isUnknown hop] at hcheck
    cases hcheck
  · rw [check_of_not h hop] at hcheck
    cases hcheck

/-- The error of an acknowledgement carries it. -/
theorem carried_of_check {a : Acknowledgement} {e : FeedError} (h : a.check = .error e) :
    e = .unknownOperation a ∨ e = .notAccepted a := by
  unfold check at h
  split at h
  · exact Or.inl (Except.error.inj h).symm
  · split_ifs at h
    exact Or.inr (Except.error.inj h).symm

end Acknowledgement

/-! ### Pushes -/

namespace Push

theorem event_not_operational {p : Push} {e : FeedError} (h : p.event = .error e) :
    e.isOperational = false := by
  cases fails_of_event h <;> rfl

theorem event_ne_acknowledgement (p : Push) (a : Acknowledgement) :
    p.event ≠ .ok (.acknowledgement a) := by
  intro h
  cases event_eq_ok_iff.1 h

end Push

/-! ### Frames -/

namespace Event

theorem ofFrame_acknowledgement_iff (raw : List UInt8) (a : Acknowledgement) :
    ofFrame raw = .ok (.acknowledgement a) ↔
      Envelope.decode raw = .ok (.acknowledgement a) ∧ a.IsAcceptable := by
  constructor
  · intro h
    rcases ofFrame_eq_ok_iff.1 h with ⟨b, hdecode, hcheck, he⟩ | ⟨p, _, hevent⟩
    · cases he
      exact ⟨hdecode, a.check_eq_ok_iff.1 hcheck⟩
    · exact absurd hevent (p.event_ne_acknowledgement a)
  · rintro ⟨hdecode, haccept⟩
    exact ofFrame_eq_ok_iff.2 (Or.inl ⟨a, hdecode, a.check_eq_ok_iff.2 haccept, rfl⟩)

/-- The error of a frame comes from an acknowledgement exactly if the frame is one. -/
theorem isOperational_iff {raw : List UInt8} {e : FeedError} (h : ofFrame raw = .error e) :
    e.isOperational = true ↔ ∃ a, Envelope.decode raw = .ok (.acknowledgement a) := by
  rcases ofFrame_eq_error_iff.1 h with hdecode | ⟨a, hdecode, hcheck⟩ | ⟨p, hdecode, hevent⟩
  · obtain ⟨cause, _, rfl⟩ := Outcome.mapError_eq_error_iff.1 hdecode
    simp [hdecode, FeedError.isOperational]
  · rcases Acknowledgement.carried_of_check hcheck with rfl | rfl
    · simp [hdecode, FeedError.isOperational]
    · simp [hdecode, FeedError.isOperational]
  · simp [hdecode, Push.event_not_operational hevent]

/-- A frame that is passed on as an acknowledgement says that the operation has succeeded, or it is
a pong. -/
theorem successful_of_ofFrame {raw : List UInt8} {a : Acknowledgement}
    (h : ofFrame raw = .ok (.acknowledgement a)) :
    ∃ t, Spells raw t ∧ (t.DeniesSuccess → t.IsPong) := by
  obtain ⟨hdecode, haccept⟩ := (ofFrame_acknowledgement_iff raw a).1 h
  obtain ⟨f, hfields, hofFields⟩ := Envelope.decode_eq_ok_iff.1 hdecode
  obtain ⟨_, _, rfl⟩ := Envelope.ofFields_eq_acknowledgement_iff.1 hofFields
  obtain ⟨t, hspells, hsuccess, _, _, _, hop, _⟩ := FrameFields.hold_of_decode hfields
  refine ⟨t, hspells, fun hdenies => ?_⟩
  have hfails : f.success.getD false = false := by
    cases hvalue : f.success with
    | none => rfl
    | some b =>
      obtain ⟨v, hv, hnull, hread⟩ := FrameFields.read_of_holds rfl hsuccess hvalue
      have hvalues : t.fieldValues ["success"] 0 = [v] := hv
      obtain rfl | rfl := hdenies v (hvalues ▸ List.mem_singleton_self v)
      · cases hnull
      · cases hread
        rfl
  have hpong : f.op = some .pong := by
    have hop := Acknowledgement.op_of_isAcceptable haccept hfails
    cases hvalue : f.op with
    | none => simp [FrameFields.acknowledgement, hvalue] at hop
    | some op =>
      rw [FrameFields.acknowledgement, hvalue] at hop
      exact congrArg some hop
  obtain ⟨v, hv, _, hread⟩ := FrameFields.read_of_holds rfl hop hpong
  obtain ⟨s, hs, hpong⟩ := Outcome.map_eq_ok_iff.1 hread
  obtain rfl := Operation.eq_of_ofText_pong hpong
  obtain ⟨body, rfl, hbody⟩ := Codec.readText_eq_ok_iff.1 hs
  exact ⟨body, hv, hbody⟩

/-- An acknowledgement is passed on exactly if it is acceptable, and no error comes from anything
but an acknowledgement that is not. -/
theorem read_judges (table : IntervalTable) (raw : List UInt8) :
    Judged raw (table.feed.read raw).result := by
  have hread : (table.feed.read raw).result = ofFrame raw := result_read raw
  rw [hread]
  refine ⟨ofFrame_acknowledgement_iff raw, ?_, ?_, fun _ => isOperational_iff, ?_,
    fun _ => successful_of_ofFrame⟩
  · intro a hdecode _ hop
    rw [ofFrame_of_acknowledgement hdecode, Acknowledgement.check_of_isUnknown hop]
    rfl
  · intro a hdecode haccept hop
    rw [ofFrame_of_acknowledgement hdecode, Acknowledgement.check_of_not haccept hop]
    rfl
  · intro hother
    refine ⟨fun a h => hother a ((ofFrame_acknowledgement_iff raw a).1 h).1, fun e h => ?_⟩
    rw [Bool.eq_false_iff]
    intro hoperational
    obtain ⟨a, ha⟩ := (isOperational_iff h).1 hoperational
    exact hother a ha

end Event

end MarketFeed
