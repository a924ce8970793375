import MarketFeed.Log
import MarketFeed.Notice.Attachment
import MarketFeed.Notice.Format

/-!
# Notices

A notice for people: a text made from a format and values (`Notice.render`), and attachments.
`Notice.compose` makes one from mixed arguments, of which the values after the first attachment
are left out.  `Notice.deliver` reports a notice, hands it to a sink and reports a refusal, one act
after the other; `Notice.send` is what comes of it.  An `Outbox` is a sink that keeps what it gets.
-/

namespace MarketFeed

/-- A text for a channel, with attachments. -/
structure Notice where
  channel : String
  text : String
  attachments : List Attachment
  deriving DecidableEq, Repr

namespace Notice

/-! ### Arguments -/

/-- What a notice is made from: a value for the text, or an attachment. -/
inductive Argument where
  | value (text : String)
  | attachment (a : Attachment)
  deriving DecidableEq, Repr

/-- Arguments that have been sorted into values for the text and attachments. -/
structure Sorted where
  values : List String := []
  attachments : List Attachment := []
  deriving DecidableEq, Repr

/-- Takes one more argument.  A value counts only as long as there is no attachment. -/
def Sorted.add (s : Sorted) : Argument → Sorted
  | .value text => if s.attachments.isEmpty then { s with values := s.values ++ [text] } else s
  | .attachment a => { s with attachments := s.attachments ++ [a] }

/-- Sorts arguments, one after the other. -/
def sort (args : List Argument) : Sorted := args.foldl Sorted.add {}

/-- The values that count. -/
def valuesOf (args : List Argument) : List String := (sort args).values

/-- All attachments. -/
def attachmentsOf (args : List Argument) : List Attachment := (sort args).attachments

/-- The notice for a format and arguments. -/
def compose (channel format : String) (args : List Argument) : Notice :=
  { channel, text := render format (valuesOf args), attachments := attachmentsOf args }

/-- A notice as an object. -/
def write (n : Notice) : Json.Node :=
  Json.Node.ofPairs [
    ("channel", Json.Node.ofString n.channel),
    ("text", Json.Node.ofString n.text),
    ("attachments", Json.Node.ofList (n.attachments.map Attachment.write))]

/-! ### Sending -/

/-- A place for notices: what it does with one, given its state. -/
abbrev Sink (σ : Type) (ε : Type := String) := Notice → σ → Except ε Unit × σ

/-- One of the things that are done to send a notice. -/
inductive Act where
  | report (e : Log.Event)
  | post (n : Notice)
  deriving DecidableEq, Repr

/-- The report that is made, if any. -/
def Act.event? : Act → Option Log.Event
  | report e => some e
  | post _ => none

/-- The notice that is posted, if any. -/
def Act.notice? : Act → Option Notice
  | report _ => none
  | post n => some n

/-- The state of a sink, and what has been done so far. -/
structure Desk (σ : Type) where
  state : σ
  acts : List Act := []

/-- Makes a report. -/
def report {σ : Type} (e : Log.Event) : StateM (Desk σ) Unit :=
  modify fun desk => { desk with acts := desk.acts ++ [.report e] }

/-- Hands a notice to a sink. -/
def post {σ ε : Type} (sink : Sink σ ε) (n : Notice) : StateM (Desk σ) (Except ε Unit) :=
  modifyGet fun desk =>
    let (result, state) := sink n desk.state
    (result, { state, acts := desk.acts ++ [.post n] })

/-- The report of a notice that is about to be posted. -/
def announcement (n : Notice) : Log.Event where
  level := .info
  message := n.text
  fields := [("channel", .text n.channel), ("attachments", .count n.attachments.length)]

/-- The report of a notice that was not taken. -/
def refusal (n : Notice) (cause : String) : Log.Event where
  level := .error
  message := "notification delivery failed"
  fields := [("channel", .text n.channel), ("error", .text cause)]

section Sending

variable {σ ε : Type} [ToString ε]

/-- Reports a notice and posts it, and reports a refusal. -/
def deliver (sink : Sink σ ε) (n : Notice) : StateM (Desk σ) (Except ε Unit) := do
  report n.announcement
  match ← post sink n with
  | .ok () => return .ok ()
  | .error cause =>
    report (n.refusal (toString cause))
    return .error cause

/-- What comes of sending a notice. -/
structure Sent (σ : Type) (ε : Type := String) where
  result : Except ε Unit
  state : σ
  acts : List Act

/-- The reports that were made, in their order. -/
def Sent.log {σ ε : Type} (s : Sent σ ε) : List Log.Event := s.acts.filterMap Act.event?

/-- Sends a notice to a sink. -/
def send (sink : Sink σ ε) (n : Notice) (state : σ) : Sent σ ε :=
  let (result, desk) := (deliver sink n).run { state }
  ⟨result, desk.state, desk.acts⟩

end Sending

end Notice

/-- A sink of limited room that refuses some channels. -/
structure Outbox where
  room : Nat
  refused : List String
  kept : List Notice := []
  deriving DecidableEq, Repr

/-- Keeps a notice, unless its channel is refused or there is no room. -/
def Outbox.post : Notice.Sink Outbox := fun n box =>
  if box.refused.contains n.channel then (.error ("channel_not_found: " ++ n.channel), box)
  else if box.room ≤ box.kept.length then (.error "sink full", box)
  else (.ok (), { box with kept := box.kept ++ [n] })

end MarketFeed
