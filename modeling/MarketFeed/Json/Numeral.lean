import MarketFeed.Text.Digits
import MarketFeed.Binary64.Shortest
import MarketFeed.Json.Octet

/-!
# Numerals

A JSON number as it is written (`Json.Numeral`) and the number it stands for (`Json.Number`).  A
numeral without fraction and exponent is an integer where 64 bits hold it; every other one is read
in double precision, unless it is out of range (`Numeral.number?`).
-/

namespace MarketFeed

namespace Json

/-- The power of ten behind a numeral. -/
structure Exponent where
  capital : Bool
  /-- The sign in front of the digits, if there is one; true stands for minus. -/
  sign : Option Bool
  digits : List Digit
  deriving DecidableEq, Repr

/-- A number as it is written. -/
structure Numeral where
  negative : Bool
  whole : List Digit
  fraction : Option (List Digit)
  exponent : Option Exponent
  deriving DecidableEq, Repr

namespace Numeral

/-- The numeral of a natural number. -/
def ofNat (n : Nat) : Numeral := ⟨false, Digits.ofNat n, none, none⟩

/-! ### Text -/

/-- Digits as octets. -/
def digitOctets (ds : List Digit) : List UInt8 := ds.map Digit.toOctet

/-- The octets of a power of ten. -/
def exponentText (e : Exponent) : List UInt8 :=
  (if e.capital then Octet.capitalE else Octet.smallE)
    :: (match e.sign with
        | none => []
        | some false => [Octet.plus]
        | some true => [Octet.minus])
    ++ digitOctets e.digits

/-- The octets of a numeral. -/
def text (n : Numeral) : List UInt8 :=
  (if n.negative then [Octet.minus] else []) ++ digitOctets n.whole
    ++ (match n.fraction with
        | none => []
        | some ds => Octet.point :: digitOctets ds)
    ++ (match n.exponent with
        | none => []
        | some e => exponentText e)

/-! ### Scanning -/

/-- The digits at the start of the octets, and what follows them. -/
def takeDigits : List UInt8 → List Digit × List UInt8
  | [] => ([], [])
  | b :: s =>
    match Digit.ofOctet? b with
    | some d =>
      let (ds, rest) := takeDigits s
      (d :: ds, rest)
    | none => ([], b :: s)

/-- The digits at the start of the octets if there are any, and what follows them. -/
def someDigits? (s : List UInt8) : Option (List Digit × List UInt8) :=
  match takeDigits s with
  | ([], _) => none
  | found => some found

/-- The digits before the point: a lone zero, or digits that do not begin with zero. -/
def whole? (s : List UInt8) : Option (List Digit × List UInt8) :=
  match takeDigits s with
  | ([], _) => none
  | (d :: d' :: ds, rest) => if d = Digit.zero then none else some (d :: d' :: ds, rest)
  | found => some found

/-- The fraction at the start of the octets, if a point stands there. -/
def fraction? (s : List UInt8) : Option (Option (List Digit) × List UInt8) :=
  match s with
  | [] => some (none, [])
  | b :: rest =>
    if b = Octet.point then (someDigits? rest).map fun (ds, rest) => (some ds, rest)
    else some (none, s)

/-- The sign at the start of the octets, if there is one. -/
def takeSign : List UInt8 → Option Bool × List UInt8
  | [] => (none, [])
  | b :: s =>
    if b = Octet.plus then (some false, s)
    else if b = Octet.minus then (some true, s)
    else (none, b :: s)

/-- The power of ten at the start of the octets, if an exponent mark stands there. -/
def exponent? (s : List UInt8) : Option (Option Exponent × List UInt8) :=
  match s with
  | [] => some (none, [])
  | b :: rest =>
    if b = Octet.smallE ∨ b = Octet.capitalE then
      let (sign, rest) := takeSign rest
      (someDigits? rest).map fun (ds, rest) => (some ⟨b == Octet.capitalE, sign, ds⟩, rest)
    else some (none, s)

/-- The numeral at the start of the octets, and what follows it. -/
def scan? (s : List UInt8) : Option (Numeral × List UInt8) := do
  let (negative, s) := match s with
    | [] => (false, [])
    | b :: rest => if b = Octet.minus then (true, rest) else (false, b :: rest)
  let (whole, s) ← whole? s
  let (fraction, s) ← fraction? s
  let (exponent, s) ← exponent? s
  return (⟨negative, whole, fraction, exponent⟩, s)

end Numeral

/-! ### Numbers -/

/-- The number that a numeral stands for. -/
inductive Number where
  | natural (value : UInt64)
  | negative (magnitude : Nat)
  | real (value : Binary64)
  deriving DecidableEq, Repr

/-- The text of a number. -/
def Number.text : Number → String
  | .natural n => Text.ofNat n.toNat
  | .negative n => "-" ++ Text.ofNat n
  | .real x => x.text

namespace Numeral

/-- Appends digits to a significand for as long as 64 bits hold it, and counts those it took. -/
def absorb : Nat → List Digit → Nat × Nat
  | n, [] => (n, 0)
  | n, d :: ds =>
    if n * 10 + d.val < UInt64.size then
      let (n, taken) := absorb (n * 10 + d.val) ds
      (n, taken + 1)
    else (n, 0)

/-- The power of ten that an exponent spells. -/
def tens (e : Exponent) : Int :=
  if e.sign = some true then -(Digits.value e.digits : Int) else Digits.value e.digits

/-- The double precision reading of a numeral, unless it is out of range.  Digits before the point
that 64 bits do not hold only raise the power of ten, and such digits after it are left out. -/
def real? (n : Numeral) : Option Binary64 :=
  let (m, taken) := absorb 0 n.whole
  let (m, places) := absorb m (n.fraction.getD [])
  let power := ((n.whole.length - taken : Nat) : Int) - places + (n.exponent.map tens).getD 0
  (Binary64.scaled? m power).map (·.withSign n.negative)

/-- Whether a numeral has neither fraction nor exponent. -/
def isWhole (n : Numeral) : Bool := n.fraction.isNone && n.exponent.isNone

/-- The number that a numeral stands for, unless it is out of range. -/
def number? (n : Numeral) : Option Number :=
  let m := Digits.value n.whole
  if n.isWhole && !n.negative && decide (m < UInt64.size) then some (.natural (UInt64.ofNat m))
  else if n.isWhole && n.negative && decide (0 < m ∧ m ≤ UInt64.size / 2) then some (.negative m)
  else n.real?.map .real

end Numeral

end Json

end MarketFeed
