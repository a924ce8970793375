import MarketFeed.Decimal.Basic

/-!
# Double precision numbers

A finite number of the binary64 format as a sign, a significand and a power of two, with exact
arithmetic on natural numbers: `Binary64.round?` finds the nearest one to a ratio, and
`Binary64.scaled?` reads a significand with a power of ten the quick way, by a product or quotient
of rounded numbers, which may miss the nearest by a few units of the last place.
-/

namespace MarketFeed

/-- The number `± significand * 2 ^ exponent`. -/
structure Binary64 where
  negative : Bool
  significand : Nat
  exponent : Int
  deriving DecidableEq, Repr

namespace Binary64

/-- The exponent of the numbers next to zero. -/
def minExponent : Int := -1074

/-- The exponent of the largest numbers. -/
def maxExponent : Int := 971

/-- Zero with a sign. -/
def zero (negative : Bool) : Binary64 := ⟨negative, 0, minExponent⟩

/-- Numerator and denominator of `n / d * 2 ^ e`. -/
def shifted (n d : Nat) (e : Int) : Nat × Nat := (n * Nat.pow 2 e.toNat, d * Nat.pow 2 (-e).toNat)

/-- The exponent at which the ratio `n / d` has a significand of 53 bits, or the least exponent. -/
def exponentOf (n d : Nat) : Int :=
  let e : Int := (n.log2 : Int) - d.log2 - 53
  let (n, d) := shifted n d (-e)
  max minExponent (if n / d < Nat.pow 2 53 then e else e + 1)

/-- The number nearest to the ratio `n / d`, ties to even, unless it is out of range. -/
def round? (n d : Nat) : Option Binary64 :=
  if n = 0 then some (zero false)
  else
    let e := exponentOf n d
    let (n, d) := shifted n d (-e)
    let m := Rounding.halfEven n d
    let (m, e) := if m = Nat.pow 2 53 then (Nat.pow 2 52, e + 1) else (m, e)
    if maxExponent < e then none else some ⟨false, m, e⟩

/-- The rounded product of two numbers' magnitudes. -/
def mul? (a b : Binary64) : Option Binary64 :=
  let (n, d) := shifted (a.significand * b.significand) 1 (a.exponent + b.exponent)
  round? n d

/-- The rounded quotient of two numbers' magnitudes. -/
def div? (a b : Binary64) : Option Binary64 :=
  let (n, d) := shifted a.significand b.significand (a.exponent - b.exponent)
  round? n d

/-- The largest power of ten in range. -/
def maxTens : Nat := 308

/-- Reads `significand * 10 ^ tens` by one rounded operation on two rounded numbers, or by two where
the power of ten is very small. -/
def scaled? (significand : Nat) (tens : Int) : Option Binary64 := do
  let f ← round? significand 1
  if significand = 0 then return f
  let power (k : Nat) := round? (Nat.pow 10 k) 1
  if 0 ≤ tens then
    if maxTens < tens then none else f.mul? (← power tens.toNat)
  else if -tens ≤ maxTens then f.div? (← power (-tens).toNat)
  else if -tens ≤ 2 * maxTens then
    (← f.div? (← power maxTens)).div? (← power ((-tens).toNat - maxTens))
  else return zero false

/-- The number with a given sign. -/
def withSign (x : Binary64) (negative : Bool) : Binary64 := { x with negative }

end Binary64

end MarketFeed
