/-!
# Formats

A format is a text with places, which are pairs of braces.  A `Filling` is a format whose first
places have been filled: a round (`Filling.next?`) looks for the next place in the rest of the
format and puts the next value there, and `Filling.finish` goes on until there is no place left.  A
place without a value stays as it is, and values without a place are left out.
-/

namespace MarketFeed

namespace Notice

/-- What a place of a format looks like. -/
def place : List Char := ['{', '}']

/-- The position of the first place in a text. -/
def findPlace? : List Char → Option Nat
  | [] => none
  | c :: cs => if place.isPrefixOf (c :: cs) then some 0 else (findPlace? cs).map (· + 1)

/-- A format that is being filled: what has been written, what is left of the format, and the values
that are left. -/
structure Filling where
  written : List Char
  rest : List Char
  values : List String

namespace Filling

/-- A format of which nothing has been filled. -/
def begin (format : String) (values : List String) : Filling := ⟨[], format.toList, values⟩

/-- What comes into the next place. -/
def filler (f : Filling) : List Char :=
  match f.values with
  | value :: _ => value.toList
  | [] => place

/-- The next round: the text before the next place is written and the place is filled, unless there
is none. -/
def next? (f : Filling) : Option Filling :=
  match findPlace? f.rest with
  | none => none
  | some position => some {
      written := f.written ++ f.rest.take position ++ f.filler
      rest := f.rest.drop (position + place.length)
      values := f.values.tail }

theorem length_rest_lt {f g : Filling} (h : f.next? = some g) : g.rest.length < f.rest.length := by
  unfold next? at h
  split at h
  · cases h
  · next position found =>
    obtain rfl := Option.some.inj h
    have : f.rest ≠ [] := fun hnil => by simp [hnil, findPlace?] at found
    have := List.length_pos_iff.2 this
    simp only [List.length_drop, place, List.length_cons, List.length_nil]
    omega

/-- Goes on until there is no place left, and writes the rest. -/
def finish (f : Filling) : List Char :=
  match _next : f.next? with
  | some g => g.finish
  | none => f.written ++ f.rest
termination_by f.rest.length
decreasing_by exact length_rest_lt _next

end Filling

/-- The text of a format with values in its places. -/
def render (format : String) (values : List String) : String :=
  String.ofList (Filling.begin format values).finish

end Notice

end MarketFeed
