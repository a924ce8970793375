import Mathlib.Data.List.Basic
import MarketFeed.Notice.Basic

/-!
# Sending notices

Sorting arguments keeps all attachments and the values before the first of them (`sort_eq`), so the
values behind it say nothing (`asked_of_differLate`).  Sending makes one report, posts the notice
and makes another report only if it is refused (`send_of_ok`, `send_of_error`).
-/

namespace MarketFeed

namespace Notice

/-! ### Arguments -/

namespace Argument

/-- Whether an argument is a value. -/
def isValue : Argument → Bool
  | value _ => true
  | attachment _ => false

/-- The value that an argument is. -/
def value? : Argument → Option String
  | value text => some text
  | attachment _ => none

/-- The attachment that an argument is. -/
def attachment? : Argument → Option Attachment
  | value _ => none
  | attachment a => some a

@[simp] theorem attachment?_value (text : String) : (value text).attachment? = none := rfl

@[simp] theorem attachment?_attachment (a : Attachment) : (attachment a).attachment? = some a := rfl

end Argument

/-- The values before the first attachment, or all values where there is none. -/
def leadingValues (args : List Argument) : List String :=
  (args.takeWhile Argument.isValue).filterMap Argument.value?

@[simp] theorem leadingValues_nil : leadingValues [] = [] := rfl

@[simp] theorem leadingValues_value (text : String) (args : List Argument) :
    leadingValues (.value text :: args) = text :: leadingValues args := rfl

@[simp] theorem leadingValues_attachment (a : Attachment) (args : List Argument) :
    leadingValues (.attachment a :: args) = [] := rfl

/-- The notice that is asked for by a channel, a format and arguments. -/
def asked (channel format : String) (args : List Argument) : Notice where
  channel := channel
  text := render format (leadingValues args)
  attachments := args.filterMap Argument.attachment?

/-- Two lists of arguments that differ in nothing but the values behind the first attachment. -/
def DifferLate (args args' : List Argument) : Prop :=
  ∃ (values : List String) (first : Attachment) (late late' : List Argument),
    args = values.map .value ++ .attachment first :: late ∧
    args' = values.map .value ++ .attachment first :: late' ∧
    late.filterMap Argument.attachment? = late'.filterMap Argument.attachment?

/-- What sorting adds to what has been sorted: attachments in any case, and values up to the first
attachment unless there has been one before. -/
theorem foldl_add (s : Sorted) (args : List Argument) :
    args.foldl Sorted.add s =
      { values := s.values ++ if s.attachments.isEmpty then leadingValues args else []
        attachments := s.attachments ++ args.filterMap Argument.attachment? } := by
  induction args generalizing s with
  | nil => simp
  | cons arg args ih =>
    rw [List.foldl_cons, ih]
    cases arg with
    | value text =>
      cases hnone : s.attachments.isEmpty <;> simp [Sorted.add, hnone, List.filterMap_cons]
    | attachment a => simp [Sorted.add]

theorem sort_eq (args : List Argument) :
    sort args = ⟨leadingValues args, args.filterMap Argument.attachment?⟩ :=
  foldl_add {} args

theorem compose_eq (channel format : String) (args : List Argument) :
    compose channel format args = asked channel format args := by
  rw [compose, valuesOf, attachmentsOf, sort_eq]
  rfl

/-- What stands behind the first attachment is no leading value. -/
theorem leadingValues_append (values : List String) (first : Attachment) (late : List Argument) :
    leadingValues (values.map .value ++ .attachment first :: late) = values := by
  induction values with
  | nil => rfl
  | cons text values ih => exact congrArg (text :: ·) ih

theorem asked_of_differLate {args args' : List Argument} (h : DifferLate args args')
    (channel format : String) : asked channel format args = asked channel format args' := by
  obtain ⟨values, first, late, late', rfl, rfl, hlate⟩ := h
  simp only [asked, leadingValues_append, List.filterMap_append, List.filterMap_cons, hlate]

/-! ### Sending -/

section Sending

variable {σ ε : Type}

@[simp] theorem run_report (e : Log.Event) (desk : Desk σ) :
    (report e).run desk = pure ((), ⟨desk.state, desk.acts ++ [.report e]⟩) := rfl

@[simp] theorem run_post (sink : Sink σ ε) (n : Notice) (desk : Desk σ) :
    (Notice.post sink n).run desk =
      pure ((sink n desk.state).1, ⟨(sink n desk.state).2, desk.acts ++ [.post n]⟩) := rfl

variable [ToString ε] (sink : Sink σ ε)

theorem deliver_of_ok {n : Notice} {desk : Desk σ} {after : σ}
    (h : sink n desk.state = (.ok (), after)) :
    (deliver sink n).run desk =
      pure (.ok (), ⟨after, desk.acts ++ [.report n.announcement, .post n]⟩) := by
  simp [deliver, h]

theorem deliver_of_error {n : Notice} {desk : Desk σ} {after : σ} {cause : ε}
    (h : sink n desk.state = (.error cause, after)) :
    (deliver sink n).run desk =
      pure (.error cause, ⟨after, desk.acts ++
        [.report n.announcement, .post n, .report (n.refusal (toString cause))]⟩) := by
  simp [deliver, h]

theorem send_of_ok {n : Notice} {state after : σ} (h : sink n state = (.ok (), after)) :
    send sink n state = ⟨.ok (), after, [.report n.announcement, .post n]⟩ := by
  rw [send, deliver_of_ok sink h]
  rfl

theorem send_of_error {n : Notice} {state after : σ} {cause : ε}
    (h : sink n state = (.error cause, after)) :
    send sink n state = ⟨.error cause, after,
      [.report n.announcement, .post n, .report (n.refusal (toString cause))]⟩ := by
  rw [send, deliver_of_error sink h]
  rfl

/-- What is done to send a notice: it is reported and posted, once, and the answer of the sink is
returned, after another report if it is an error. -/
structure Posts (n : Notice) (state : σ) : Prop where
  once : (send sink n state).acts.filterMap Act.notice? = [n]
  taken : ∀ after, sink n state = (.ok (), after) →
    send sink n state = ⟨.ok (), after, [
      .report ⟨.info, n.text,
        [("channel", .text n.channel), ("attachments", .count n.attachments.length)]⟩,
      .post n]⟩
  refused : ∀ cause after, sink n state = (.error cause, after) →
    send sink n state = ⟨.error cause, after, [
      .report ⟨.info, n.text,
        [("channel", .text n.channel), ("attachments", .count n.attachments.length)]⟩,
      .post n,
      .report ⟨.error, "notification delivery failed",
        [("channel", .text n.channel), ("error", .text (toString cause))]⟩]⟩

theorem send_posts (n : Notice) (state : σ) : Posts sink n state where
  once := by
    rcases hanswer : sink n state with ⟨⟨⟩ | ⟨⟩, after⟩
    · rw [send_of_error sink hanswer]
      rfl
    · rw [send_of_ok sink hanswer]
      rfl
  taken _ := send_of_ok sink
  refused _ _ := send_of_error sink

/-- What sending comes to for a channel, a format and arguments.  Nothing depends on the values
behind the first attachment. -/
structure SendsAsked (channel format : String) (args : List Argument) (state : σ) : Prop where
  composed : compose channel format args = asked channel format args
  posts : Posts sink (compose channel format args) state
  late : ∀ args', DifferLate args args' →
    compose channel format args' = compose channel format args ∧
      send sink (compose channel format args') state = send sink (compose channel format args) state

/-- The notice that is asked for is posted once, and values behind the first attachment change
neither the notice nor what comes of it. -/
theorem compose_sent (channel format : String) (args : List Argument) (state : σ) :
    SendsAsked sink channel format args state where
  composed := compose_eq channel format args
  posts := send_posts sink _ state
  late args' h := by
    have same : compose channel format args' = compose channel format args := by
      rw [compose_eq, compose_eq, asked_of_differLate h]
    exact ⟨same, by rw [same]⟩

end Sending

-- A value behind the first attachment may be there or not.
example (a b : Attachment) :
    DifferLate [.value "filled", .attachment a, .value "late", .attachment b]
      [.value "filled", .attachment a, .attachment b, .value "later", .value "still later"] :=
  ⟨["filled"], a, _, _, rfl, rfl, rfl⟩

end Notice

end MarketFeed
