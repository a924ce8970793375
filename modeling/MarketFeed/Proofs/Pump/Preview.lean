import MarketFeed.Proofs.Pump.Narration
import MarketFeed.Proofs.Text.Preview

/-!
# Frames in the log

Of a frame that it cannot read, a pump shows the start in its log.  Whatever the octets of the
frame are, making this preview does not fail and takes at most three octets more than the settings
allow (`Pump.previewsFrame`), so no run logs more of any frame (`Pump.play_showsFrame`).  Together
with what a preview shows of a text this is `Pump.read_previews`.
-/

namespace MarketFeed

namespace Pump

variable {α : Type} (pump : Pump α)

/-! ### One frame -/

/-- How many octets of a frame's text the settings allow in the log. -/
abbrev limit : Nat := pump.config.rawPreviewBytes.toNat

/-- What reading a frame puts into the log of a session. -/
structure PreviewsFrame (s : Session α) (raw : List UInt8) : Prop where
  /-- Making the preview does not fail. -/
  made : Text.preview? pump.limit (textOf raw).toList = some (pump.preview raw).toList
  /-- A text that fits is shown as it is, and of any other not much more than the settings allow. -/
  whole : (octets (textOf raw)).length ≤ pump.limit → pump.preview raw = textOf raw
  bounded : pump.limit < (octets (textOf raw)).length →
    (octets (pump.preview raw)).length ≤ pump.limit + 3
  /-- The preview is in the report of a frame that cannot be read. -/
  logged : ∀ e, (pump.feed.read raw).result = .error e →
    (pump.read s raw).log = s.log ++ (pump.feed.read raw).log.map (⟨.feed, ·⟩) ++
      [⟨.pump, pump.event .warn "frame decode failed" [
        ("error", .text e.message),
        ("bytes", .count raw.length),
        ("raw", .text (pump.preview raw))]⟩]

theorem preview?_textOf (raw : List UInt8) :
    Text.preview? pump.limit (textOf raw).toList = some (pump.preview raw).toList := by
  rw [textOf, preview, String.toList_ofList, String.toList_ofList, Text.preview?_eq]

theorem preview_of_le {raw : List UInt8} (fits : (octets (textOf raw)).length ≤ pump.limit) :
    pump.preview raw = textOf raw := by
  have made := pump.preview?_textOf raw
  rw [Text.preview?_eq, Text.preview_of_fits fits, Option.some_inj] at made
  exact (String.toList_injective made).symm

theorem length_preview_of_lt {raw : List UInt8}
    (long : pump.limit < (octets (textOf raw)).length) :
    (octets (pump.preview raw)).length ≤ pump.limit + 3 := by
  obtain ⟨kept, longest, cut⟩ := Text.exists_isCut long
  have made := pump.preview?_textOf raw
  rw [cut.shown, Option.some_inj] at made
  rw [octets, ← made, Utf8.encode_append, List.length_append]
  exact Nat.add_le_add_right longest.fits 3

/-- Of no frame more is shown than the settings allow and three points. -/
theorem length_preview_le (raw : List UInt8) :
    (octets (pump.preview raw)).length ≤ pump.limit + 3 := by
  obtain long | fits := Nat.lt_or_ge pump.limit (octets (textOf raw)).length
  · exact pump.length_preview_of_lt long
  · rw [pump.preview_of_le fits]
    exact Nat.le_add_right_of_le fits

theorem previewsFrame (s : Session α) (raw : List UInt8) : pump.PreviewsFrame s raw where
  made := pump.preview?_textOf raw
  whole := pump.preview_of_le
  bounded := pump.length_preview_of_lt
  logged e failed := by
    rw [Pump.read, failed]
    rfl

/-! ### A run -/

/-- Whether an event shows a frame by a text. -/
def ShowsFrame (e : Log.Event) (t : String) : Prop := ("raw", Log.Value.text t) ∈ e.fields

theorem showsFrame_verdict {raw : List UInt8} {t : String}
    (h : ShowsFrame (pump.verdict raw) t) : t = pump.preview raw := by
  unfold ShowsFrame verdict at h
  cases hread : pump.outcome raw with
  | ok a => simp [hread, event] at h
  | error e => simpa [hread, event] using h

theorem showsFrame_remarks {item : Item} {e : Log.Event} {t : String}
    (he : e ∈ pump.remarks item) (h : ShowsFrame e t) :
    ∃ raw, item.frame? = some raw ∧ t = pump.preview raw := by
  cases item with
  | text s =>
    obtain rfl := List.mem_singleton.1 he
    exact ⟨octets s, rfl, pump.showsFrame_verdict h⟩
  | binary bytes =>
    obtain rfl := List.mem_singleton.1 he
    exact ⟨bytes, rfl, pump.showsFrame_verdict h⟩
  | ping | pong | raw => cases he
  | close frame | failure cause =>
    obtain rfl := List.mem_singleton.1 he
    simp [ShowsFrame, event] at h

theorem not_showsFrame_farewell {counts : Counts} {exit : Exit} {e : Log.Event} {t : String}
    (he : e ∈ pump.farewell counts exit) : ¬ShowsFrame e t := by
  obtain hdropped | hstopped := List.mem_append.1 he
  · split_ifs at hdropped
    · obtain rfl := List.mem_singleton.1 hdropped
      simp [ShowsFrame, event]
    · cases hdropped
  · obtain rfl := List.mem_singleton.1 hstopped
    simp [ShowsFrame, event]

/-- The texts that show frames are the previews of frames that have been pulled. -/
theorem Tells.preview_of_showsFrame {s : Session α} {pulled : List Item}
    (h : pump.Tells s pulled) {e : Log.Event} {t : String} (he : e ∈ Log.ofPump s.log)
    (shows : ShowsFrame e t) :
    ∃ raw, raw ∈ pulled.filterMap Item.frame? ∧ t = pump.preview raw := by
  rw [h.log, List.mem_append, List.mem_cons, List.mem_flatMap] at he
  obtain (rfl | ⟨item, hpulled, hitem⟩) | hend := he
  · simp [ShowsFrame, greeting, event] at shows
  · obtain ⟨raw, frame, rfl⟩ := pump.showsFrame_remarks hitem shows
    exact ⟨raw, List.mem_filterMap.2 ⟨item, hpulled, frame⟩, rfl⟩
  · cases hexit : s.exit with
    | none => simp [hexit] at hend
    | some exit =>
      rw [hexit] at hend
      exact absurd shows (pump.not_showsFrame_farewell hend)

theorem play_showsFrame {items : List Item} {moves : List Move} {e : Log.Event} {t : String}
    (he : e ∈ Log.ofPump (pump.play (pump.begin items) moves).log) (shows : ShowsFrame e t) :
    ∃ raw, raw ∈ items.filterMap Item.frame? ∧ t = pump.preview raw := by
  obtain ⟨pulled, split, tells⟩ := pump.told_play items moves
  obtain ⟨raw, hraw, rfl⟩ := tells.preview_of_showsFrame pump he shows
  refine ⟨raw, ?_, rfl⟩
  rw [split, List.filterMap_append]
  exact List.mem_append_left _ hraw

/-- Of every text and within every limit, a preview shows all of it if it fits and otherwise the
longest start that does, and making it never fails.  So a pump shows frames of whatever octets, and
in every state that moves of the pump and its receiver lead to, its log shows of each frame at most
what the settings allow and three points. -/
theorem read_previews :
    (∀ limit s, Text.Shows limit s) ∧
    (∀ s raw, pump.PreviewsFrame s raw) ∧
    ∀ items moves, ∀ e ∈ Log.ofPump (pump.play (pump.begin items) moves).log, ∀ t,
      ShowsFrame e t → ∃ raw, raw ∈ items.filterMap Item.frame? ∧ t = pump.preview raw ∧
        (octets t).length ≤ pump.limit + 3 := by
  refine ⟨Text.shows, pump.previewsFrame, fun items moves e he t shows => ?_⟩
  obtain ⟨raw, hraw, rfl⟩ := pump.play_showsFrame he shows
  exact ⟨raw, hraw, rfl, pump.length_preview_le raw⟩

/-- A pump that reads no frame. -/
def deaf (rawPreviewBytes : UInt64) : Pump Unit where
  feed :=
    { name := ""
      topic := fun _ => .ok ""
      read := fun _ => ⟨.error (.topicFormat ""), []⟩ }
  config := { rawPreviewBytes }

/-- The limit lies inside the character that stands for an ill-formed octet. -/
theorem read_previews_replaced :
    let pump := deaf 2
    let raw := [0x61, 0xFF, 0x62]
    pump.limit < (octets (textOf raw)).length ∧
      (octets (pump.preview raw)).length ≤ pump.limit + 3 ∧
      pump.verdict raw ∈ Log.ofPump (pump.play (pump.begin [.binary raw]) [.step]).log ∧
      ShowsFrame (pump.verdict raw) "a..." ∧
      ∃ frame, frame ∈ [raw] ∧ "a..." = pump.preview frame ∧
        (octets "a...").length ≤ pump.limit + 3 := by
  intro pump raw
  have long : pump.limit < (octets (textOf raw)).length := by decide
  have reported : pump.verdict raw ∈
      Log.ofPump (pump.play (pump.begin [.binary raw]) [.step]).log := by decide
  have shows : ShowsFrame (pump.verdict raw) "a..." := by
    unfold ShowsFrame
    decide
  obtain ⟨-, frame, run⟩ := pump.read_previews
  exact ⟨long, (frame (pump.begin []) raw).bounded long, reported, shows,
    run [.binary raw] [.step] _ reported _ shows⟩

end Pump

end MarketFeed
