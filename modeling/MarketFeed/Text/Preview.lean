import MarketFeed.Text.Utf8

/-!
# Previews

What is shown of a text that may be long (`Text.preview`): all of it if it fits into a number of
octets, or else its start with three points behind it.  The start ends at the last boundary of
characters within the limit, which is searched for backwards (`Utf8.lastBoundary?`).  This search
must not go below the first octet, and a text must not be cut inside a character (`Text.before?`).
Neither ever happens (`Text.isSome_preview?`).
-/

namespace MarketFeed

namespace Utf8

/-- Goes back to the last boundary.  Fails if there is none down to the first octet. -/
def lastBoundary? (octets : List UInt8) (i : Nat) : Option Nat :=
  if isBoundary octets i then some i
  else match i with
    | 0 => none
    | i + 1 => lastBoundary? octets i

theorem isBoundary_zero (octets : List UInt8) : isBoundary octets 0 = true := rfl

/-- Going back comes to a boundary, and every octet that it passes is none. -/
theorem exists_lastBoundary? (octets : List UInt8) (i : Nat) :
    ∃ stop, lastBoundary? octets i = some stop ∧ stop ≤ i ∧ isBoundary octets stop = true ∧
      ∀ j, stop < j → j ≤ i → isBoundary octets j = false := by
  induction i with
  | zero => exact ⟨0, rfl, Nat.le_refl 0, isBoundary_zero octets, fun j hj hle => by omega⟩
  | succ i ih =>
    unfold lastBoundary?
    cases here : isBoundary octets (i + 1) with
    | true => exact ⟨i + 1, rfl, Nat.le_refl _, here, fun j hj hle => by omega⟩
    | false =>
      obtain ⟨stop, found, le, boundary, passed⟩ := ih
      refine ⟨stop, found, Nat.le_succ_of_le le, boundary, fun j hj hle => ?_⟩
      obtain hlast | hbefore := Nat.eq_or_lt_of_le hle
      · rwa [hlast]
      · exact passed j hj (Nat.le_of_lt_succ hbefore)

end Utf8

namespace Text

/-- The longest start of a text that fits into a number of octets. -/
def takeOctets : Nat → List Char → List Char
  | _, [] => []
  | limit, c :: cs => if c.utf8Size ≤ limit then c :: takeOctets (limit - c.utf8Size) cs else []

/-- What stands in a text before one of its octets.  Fails inside a character. -/
def before? (s : List Char) (i : Nat) : Option (List Char) :=
  if Utf8.isBoundary (Utf8.encode s) i then some (takeOctets i s) else none

/-- A text that fits into a number of octets, or else what stands before its last boundary within
them, with three points.  Fails where the search or the cut does. -/
def preview? (limit : Nat) (s : List Char) : Option (List Char) :=
  if Utf8.size s ≤ limit then some s
  else do
    let stop ← Utf8.lastBoundary? (Utf8.encode s) limit
    let start ← before? s stop
    some (start ++ ['.', '.', '.'])

theorem isSome_preview? (limit : Nat) (s : List Char) : (preview? limit s).isSome = true := by
  unfold preview?
  split
  · rfl
  · obtain ⟨stop, found, -, boundary, -⟩ := Utf8.exists_lastBoundary? (Utf8.encode s) limit
    simp [found, before?, boundary]

/-- A text, cut where it does not fit into a number of octets. -/
def preview (limit : Nat) (s : List Char) : List Char :=
  (preview? limit s).get (isSome_preview? limit s)

end Text

end MarketFeed
