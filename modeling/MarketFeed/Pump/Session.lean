import MarketFeed.Exchange.Feed
import MarketFeed.Text.Preview

/-!
# Pumping frames

A pump pulls the items of a connection one by one, reads the frames among them and sends the
outcomes into a channel of limited room, from which a receiver takes them.  A `Pump.Session` is
the state of pump, channel and receiver; `Pump.play` runs any interleaving of their moves.  The
pump waits while the channel is full, and ends when there are no more items, when the connection
is closed or fails, or when it has something to send and the receiver is gone.  `Pump.run` is the
run in which the receiver takes all it can before each item.  The room in the channel, and how much
of a failed frame is logged, are settings (`Pump.Config`), which are read from an object.
-/

namespace MarketFeed

namespace Pump

/-! ### Settings -/

/-- The room in the channel of a pump, and how much of a failed frame is logged. -/
structure Config where
  channelCapacity : UInt64 := 1000
  rawPreviewBytes : UInt64 := 1024
  deriving DecidableEq, Repr

namespace Config

/-- The fields of the settings. -/
def record : Json.Record Config where
  name := "PumpConfig"
  fields := [
    .withDefault "channel_capacity" "channel_capacity" .size 1000,
    .withDefault "raw_preview_bytes" "raw_preview_bytes" .size 1024]
  ofValues := fun (channelCapacity, rawPreviewBytes, ()) => { channelCapacity, rawPreviewBytes }
  toValues c := (c.channelCapacity, c.rawPreviewBytes, ())

/-- Settings as objects. -/
def codec : Json.Codec Config := record.codec

/-- The number of events that the channel holds, at least one. -/
def capacity (c : Config) : Nat := max c.channelCapacity.toNat 1

end Config

/-! ### Sessions -/

/-- What a connection hands out. -/
inductive Item where
  | text (s : String)
  | binary (bytes : List UInt8)
  | ping
  | pong
  | raw
  | close (frame : String)
  | failure (cause : String)
  deriving DecidableEq, Repr

/-- The frame that an item holds. -/
def Item.frame? : Item → Option (List UInt8)
  | text s => some (octets s)
  | binary bytes => some bytes
  | _ => none

/-- Why a pump has ended. -/
inductive Exit where
  | exhausted
  | closed
  | transportError
  | receiverDropped
  deriving DecidableEq, Repr

/-- The name of an exit. -/
def Exit.text : Exit → String
  | exhausted => "Exhausted"
  | closed => "Closed"
  | transportError => "TransportError"
  | receiverDropped => "ReceiverDropped"

/-- How many items were pulled, and how many of them were read, could not be read, or are no frames
of data.  A count that goes beyond 64 bits starts again. -/
structure Counts where
  frames : UInt64 := 0
  decoded : UInt64 := 0
  failed : UInt64 := 0
  skipped : UInt64 := 0
  deriving DecidableEq, Repr

/-- A count is reported as a number. -/
instance Counts.coeNat : Coe UInt64 Nat := ⟨UInt64.toNat⟩

/-- What is sent for a frame. -/
abbrev Outcome (α : Type) := Except FeedError α

/-- The state of a pump, its channel and its receiver. -/
structure Session (α : Type) where
  /-- The items that have not been pulled. -/
  items : List Item
  /-- The outcome that waits for room in the channel. -/
  pending : Option (Outcome α) := none
  /-- The outcomes in the channel. -/
  queue : List (Outcome α) := []
  /-- All outcomes that the channel has accepted. -/
  accepted : List (Outcome α) := []
  /-- The outcomes that the receiver has taken. -/
  taken : List (Outcome α) := []
  /-- Whether the receiver is there. -/
  receiving : Bool := true
  counts : Counts := {}
  exit : Option Exit := none
  log : List Log.Entry

end Pump

/-- A feed and the settings for its pump. -/
structure Pump (α : Type) where
  feed : Feed α
  config : Pump.Config

namespace Pump

variable {α : Type} (pump : Pump α)

/-! ### Reports -/

/-- A report of the pump. -/
def report (level : Log.Level) (message : String) (fields : List (String × Log.Value)) :
    Log.Entry :=
  ⟨.pump, { level, message, fields := ("exchange", .text pump.feed.name) :: fields }⟩

/-- The report of the start. -/
def started : Log.Entry := pump.report .info "frame pump started" []

/-- The report of the end. -/
def stopped (counts : Counts) (exit : Exit) : Log.Entry :=
  pump.report .info "frame pump stopped" [
    ("frames", .count counts.frames),
    ("decoded", .count counts.decoded),
    ("failed", .count counts.failed),
    ("skipped", .count counts.skipped),
    ("exit", .text exit.text)]

/-- The start of a frame's text, as the settings allow. -/
def preview (raw : List UInt8) : String :=
  String.ofList (Text.preview pump.config.rawPreviewBytes.toNat (Utf8.lossy raw))

/-- The report of a frame. -/
def frameReport (raw : List UInt8) : Outcome α → Log.Entry
  | .ok _ => pump.report .debug "frame decoded" [("bytes", .count raw.length)]
  | .error e =>
    pump.report .warn "frame decode failed" [
      ("error", .text e.message),
      ("bytes", .count raw.length),
      ("raw", .text (pump.preview raw))]

/-! ### Moves -/

/-- The state at the start. -/
def begin (items : List Item) : Session α := { items, log := [pump.started] }

/-- Ends the pump. -/
def finish (s : Session α) (exit : Exit) : Session α :=
  { s with
    pending := none
    exit := some exit
    log := s.log ++ [pump.stopped s.counts exit] }

/-- Reads a frame, whose outcome is then pending. -/
def read (s : Session α) (raw : List UInt8) : Session α :=
  let reading := pump.feed.read raw
  { s with
    pending := some reading.result
    counts := match reading.result with
      | .ok _ => { s.counts with decoded := s.counts.decoded + 1 }
      | .error _ => { s.counts with failed := s.counts.failed + 1 }
    log := s.log ++ reading.log.map (⟨.feed, ·⟩) ++ [pump.frameReport raw reading.result] }

/-- Handles an item that was pulled. -/
def handle (s : Session α) : Item → Session α
  | .text text => pump.read s (octets text)
  | .binary bytes => pump.read s bytes
  | .close frame =>
    let entry := pump.report .info "connection closed by peer" [("frame", .text frame)]
    pump.finish { s with log := s.log ++ [entry] } .closed
  | .failure cause =>
    let entry := pump.report .warn "websocket read failed" [("error", .text cause)]
    pump.finish { s with log := s.log ++ [entry] } .transportError
  | .ping | .pong | .raw =>
    { s with counts := { s.counts with skipped := s.counts.skipped + 1 } }

/-- Sends the pending outcome if there is room, and ends the pump if there is no receiver. -/
def send (s : Session α) (outcome : Outcome α) : Session α :=
  if s.receiving then
    if s.queue.length < pump.config.capacity then
      { s with
        pending := none
        queue := s.queue ++ [outcome]
        accepted := s.accepted ++ [outcome] }
    else s
  else
    let entry := pump.report .debug "event receiver dropped" []
    pump.finish { s with log := s.log ++ [entry] } .receiverDropped

/-- One step of the pump: it sends what is pending, or else pulls the next item. -/
def step (s : Session α) : Session α :=
  match s.exit, s.pending, s.items with
  | some _, _, _ => s
  | none, some outcome, _ => pump.send s outcome
  | none, none, [] => pump.finish s .exhausted
  | none, none, item :: items =>
    pump.handle { s with items, counts := { s.counts with frames := s.counts.frames + 1 } } item

/-- The receiver takes an outcome, if there is one for it. -/
def Session.take (s : Session α) : Session α :=
  match s.receiving, s.queue with
  | true, outcome :: queue => { s with queue, taken := s.taken ++ [outcome] }
  | _, _ => s

/-- The receiver goes away, and what is in the channel is lost. -/
def Session.leave (s : Session α) : Session α := { s with receiving := false, queue := [] }

/-- What can happen next in a session. -/
inductive Move where
  | step
  | take
  | leave
  deriving DecidableEq, Repr

/-- Makes a move. -/
def move (s : Session α) : Move → Session α
  | .step => pump.step s
  | .take => s.take
  | .leave => s.leave

/-- Makes moves one after the other. -/
def play (s : Session α) (moves : List Move) : Session α := moves.foldl pump.move s

/-! ### A draining receiver -/

/-- The receiver takes all that is in the channel. -/
def drain (s : Session α) : Session α := pump.play s (List.replicate s.queue.length .take)

/-- Pulls an item and sends its outcome, if it has one. -/
def advance (s : Session α) : Session α :=
  let s := pump.step s
  if s.pending.isSome then pump.step s else s

/-- Runs the pump while the receiver takes all it can before each item.  An item comes with whether
the receiver goes away just before it. -/
def runFrom (s : Session α) : List Bool → Session α
  | [] => pump.drain (pump.step (pump.drain s))
  | leaves :: rest =>
    if s.exit.isSome then pump.drain s
    else
      let s := pump.drain s
      let s := if leaves then s.leave else s
      runFrom (pump.advance s) rest

/-- Runs the pump over items, each with whether the receiver goes away just before it. -/
def run (items : List (Item × Bool)) : Session α :=
  pump.runFrom (pump.begin (items.map (·.1))) (items.map (·.2))

end Pump

end MarketFeed
