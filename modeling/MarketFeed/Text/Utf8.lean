/-!
# Octets and characters

The UTF-8 form of a text (`Utf8.encode`), and its reading one octet at a time (`Utf8.Partial.step`).
A reading yields pieces: a character, or nothing for a stretch of octets that no character's form
begins with (`Utf8.pieces`).  `Utf8.decode?` accepts the octets with no such stretch; `Utf8.lossy`
puts one replacement character in place of each.  Whether octets can be cut at a place is told by
the octet there (`Utf8.isBoundary`).
-/

namespace MarketFeed

namespace Utf8

/-- The UTF-8 form of a list of characters. -/
def encode (s : List Char) : List UInt8 := s.flatMap String.utf8EncodeChar

/-- The number of octets that a list of characters takes. -/
def size : List Char → Nat
  | [] => 0
  | c :: s => c.utf8Size + size s

/-! ### Boundaries -/

/-- An octet that goes on with a character. -/
def Continues (b : UInt8) : Prop := 0x80 ≤ b.toNat ∧ b.toNat < 0xC0

instance : DecidablePred Continues := fun b =>
  inferInstanceAs (Decidable (0x80 ≤ b.toNat ∧ b.toNat < 0xC0))

/-- Whether octets can be cut before one of them, or behind the last, without splitting a
character. -/
def isBoundary (octets : List UInt8) (i : Nat) : Bool :=
  i = 0 || match octets[i]? with
    | some b => !decide (Continues b)
    | none => i = octets.length

/-! ### Reading -/

/-- What has been read of the character at hand: nothing, or its lead octet and perhaps more.
`missing + 1` octets are still to come, the next of which lies between `low` and `high`, and
`value` is made of the bits seen so far. -/
inductive Partial where
  | start
  | inside (missing value low high : Nat)
  deriving DecidableEq, Repr

/-- One piece of a reading: a character, or nothing where the octets are ill-formed. -/
abbrev Piece := Option Char

/-- Reads an octet at the start of a character. -/
def Partial.lead (b : Nat) : List Piece × Partial :=
  if b < 0x80 then ([some (Char.ofNat b)], .start)
  else if b < 0xC2 then ([none], .start)
  else if b < 0xE0 then ([], .inside 0 (b - 0xC0) 0x80 0xBF)
  else if b < 0xF0 then
    ([], .inside 1 (b - 0xE0) (if b = 0xE0 then 0xA0 else 0x80) (if b = 0xED then 0x9F else 0xBF))
  else if b < 0xF5 then
    ([], .inside 2 (b - 0xF0) (if b = 0xF0 then 0x90 else 0x80) (if b = 0xF4 then 0x8F else 0xBF))
  else ([none], .start)

/-- Reads one octet.  An octet that cannot continue the character at hand ends an ill-formed stretch
and is read again as the start of the next character. -/
def Partial.step : Partial → Nat → List Piece × Partial
  | .start, b => lead b
  | .inside missing value low high, b =>
    if low ≤ b ∧ b ≤ high then
      let value := value * 64 + (b - 0x80)
      match missing with
      | 0 => ([some (Char.ofNat value)], .start)
      | missing + 1 => ([], .inside missing value 0x80 0xBF)
    else (none :: (lead b).1, (lead b).2)

/-- The pieces of what remains to be read, from a given point of a character. -/
def piecesFrom : Partial → List UInt8 → List Piece
  | .start, [] => []
  | .inside .., [] => [none]
  | p, b :: bs => (p.step b.toNat).1 ++ piecesFrom (p.step b.toNat).2 bs

/-- The pieces of a list of octets. -/
def pieces (octets : List UInt8) : List Piece := piecesFrom .start octets

/-- The characters whose UTF-8 form the octets are. -/
def decode? (octets : List UInt8) : Option (List Char) := (pieces octets).mapM id

/-- The characters of the octets, with U+FFFD for each ill-formed stretch. -/
def lossy (octets : List UInt8) : List Char := (pieces octets).map (·.getD '\uFFFD')

end Utf8

/-- The octets of a text. -/
def octets (s : String) : List UInt8 := Utf8.encode s.toList

/-- The text of octets, with U+FFFD for each ill-formed stretch. -/
def textOf (bytes : List UInt8) : String := String.ofList (Utf8.lossy bytes)

end MarketFeed
