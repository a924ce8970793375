/-!
# Decimal digits

Digits as numbers below ten, the digits of a natural number without superfluous zeros
(`Digits.ofNat`) and the number that digits spell (`Digits.value`).
-/

namespace MarketFeed

/-- A decimal digit. -/
abbrev Digit := Fin 10

namespace Digit

/-- The digit of the number zero. -/
def zero : Digit := ⟨0, by decide⟩

/-- The digit that a character is. -/
def ofChar? (c : Char) : Option Digit :=
  if h : 48 ≤ c.toNat ∧ c.toNat < 58 then some ⟨c.toNat - 48, by omega⟩ else none

/-- The digit that an octet is. -/
def ofOctet? (b : UInt8) : Option Digit :=
  if h : 48 ≤ b.toNat ∧ b.toNat < 58 then some ⟨b.toNat - 48, by omega⟩ else none

/-- A digit as a character. -/
def toChar (d : Digit) : Char := Char.ofNat (48 + d.val)

/-- A digit as an octet. -/
def toOctet (d : Digit) : UInt8 := UInt8.ofNat (48 + d.val)

end Digit

namespace Digits

/-- The number that digits spell, the most significant first. -/
def value (ds : List Digit) : Nat := ds.foldl (fun n d => n * 10 + d.val) 0

/-- Puts the digits of `n` before those of `ds`.  The first argument bounds the number of digits. -/
def prepend : Nat → Nat → List Digit → List Digit
  | 0, _, ds => ds
  | bound + 1, n, ds =>
    let ds := Fin.ofNat 10 n :: ds
    if n < 10 then ds else prepend bound (n / 10) ds

/-- The digits of a number, the most significant first and without superfluous zeros. -/
def ofNat (n : Nat) : List Digit := prepend (n + 1) n []

/-- Digits as characters. -/
def chars (ds : List Digit) : List Char := ds.map Digit.toChar

end Digits

namespace Text

/-- A natural number in decimal notation. -/
def ofNat (n : Nat) : String := String.ofList (Digits.chars (Digits.ofNat n))

/-- A natural number in decimal notation, with zeros before it up to a width. -/
def ofNatPadded (width n : Nat) : String :=
  let ds := Digits.chars (Digits.ofNat n)
  String.ofList (List.replicate (width - ds.length) '0' ++ ds)

end Text

end MarketFeed
