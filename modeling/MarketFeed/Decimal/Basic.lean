import MarketFeed.Text.Digits

/-!
# Decimals

A `Decimal` is a sign, a mantissa below `2 ^ 96` and a scale of at most 28: the number
`± mantissa / 10 ^ scale`.  The scale belongs to the value, so `1.50` and `1.5` are different
decimals of the same worth.  `Decimal.text` writes a decimal in plain notation with all its places;
`Decimal.worthSame` and `Decimal.worthLess` compare what two decimals are worth.

The difference of two decimals (`Decimal.sub?`) is exact at the larger of the two scales.  Where its
mantissa would leave the range, as few places as possible are dropped, rounding half to even
(`Rounding.halfEven`); where dropping every place does not help, there is no difference.
-/

namespace MarketFeed

/-- The quotient `n / d` rounded to nearest, a half to the even neighbour. -/
def Rounding.halfEven (n d : Nat) : Nat :=
  let q := n / d
  let r := n % d
  if 2 * r < d then q else if d < 2 * r then q + 1 else q + q % 2

/-- The bound below which a mantissa stays. -/
abbrev mantissaBound : Nat := Nat.pow 2 96

/-- The largest scale. -/
abbrev maxScale : Nat := 28

/-- A sign, a mantissa and a number of places after the point. -/
structure Decimal where
  negative : Bool
  mantissa : Nat
  scale : Nat
  mantissa_lt : mantissa < mantissaBound
  scale_le : scale ≤ maxScale
  deriving DecidableEq

namespace Decimal

/-- The decimal with the given parts, if they are in range. -/
def ofParts? (negative : Bool) (mantissa scale : Nat) : Option Decimal :=
  if h : mantissa < mantissaBound ∧ scale ≤ maxScale then
    some ⟨negative, mantissa, scale, h.1, h.2⟩
  else none

/-- Zero with no places. -/
def zero : Decimal := ⟨false, 0, 0, by decide, by decide⟩

instance : Inhabited Decimal := ⟨zero⟩

/-- The decimal without the sign of a zero. -/
def plainZero (d : Decimal) : Decimal := { d with negative := d.negative && d.mantissa != 0 }

/-- The decimal of the opposite sign. -/
def neg (d : Decimal) : Decimal := { d with negative := !d.negative }

/-- The mantissa with its sign. -/
def signed (d : Decimal) : Int := if d.negative then -(d.mantissa : Int) else d.mantissa

/-- The signed mantissa the decimal would have at a larger scale. -/
def signedAt (d : Decimal) (scale : Nat) : Int := d.signed * Int.pow 10 (scale - d.scale)

/-- Whether two decimals are worth the same. -/
def worthSame (a b : Decimal) : Bool :=
  a.signedAt (max a.scale b.scale) == b.signedAt (max a.scale b.scale)

/-- Whether the first decimal is worth less than the second. -/
def worthLess (a b : Decimal) : Bool :=
  a.signedAt (max a.scale b.scale) < b.signedAt (max a.scale b.scale)

/-! ### Plain notation -/

/-- The digits of the mantissa, with zeros before them where the scale needs more. -/
def digits (d : Decimal) : List Digit :=
  let ds := Digits.ofNat d.mantissa
  List.replicate (d.scale + 1 - ds.length) Digit.zero ++ ds

/-- The characters of a decimal: sign, digits before the point, and as many digits after it as the
scale says. -/
def chars (d : Decimal) : List Char :=
  let ds := Digits.chars d.digits
  let whole := ds.length - d.scale
  (if d.negative then ['-'] else []) ++ ds.take whole
    ++ (if d.scale = 0 then [] else '.' :: ds.drop whole)

/-- A decimal in plain notation. -/
def text (d : Decimal) : String := String.ofList d.chars

/-! ### Differences -/

/-- Fits `n / 10 ^ (scale + excess)` into a decimal of at most the given scale, dropping as few
places as possible. -/
def fit? (negative : Bool) (n excess : Nat) : Nat → Option Decimal
  | 0 => ofParts? negative (Rounding.halfEven n (Nat.pow 10 excess)) 0
  | scale + 1 =>
    match ofParts? negative (Rounding.halfEven n (Nat.pow 10 excess)) (scale + 1) with
    | some d => some d
    | none => fit? negative n (excess + 1) scale

/-- The first decimal less the second, or nothing where it is too large. -/
def sub? (a b : Decimal) : Option Decimal :=
  if a.mantissa = 0 then some (if b.mantissa = 0 then b else b.neg)
  else if b.mantissa = 0 then some a
  else
    let scale := max a.scale b.scale
    let difference := a.signedAt scale - b.signedAt scale
    fit? (decide (difference < 0)) difference.natAbs 0 scale

end Decimal

end MarketFeed
