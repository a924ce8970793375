import MarketFeed.Binary64.Basic

/-!
# Shortest decimal text

The decimal text of a double precision number (`Binary64.text`) has the fewest digits that read
back as the number, and among those the nearest to it.  The numbers that read back as `m * 2 ^ e`
lie between the two midpoints to its neighbours, ends included where `m` is even.  The text is
positional from `1e-5` up to `1e16` and scientific outside.
-/

namespace MarketFeed

namespace Binary64

/-- A decimal grid point: `digits * 10 ^ tens`. -/
structure Point where
  digits : Nat
  tens : Int
  deriving DecidableEq, Repr

/-- A number and the midpoints to its neighbours, as multiples of `1 / unit`. -/
structure Span where
  low : Nat
  value : Nat
  high : Nat
  unit : Nat
  closed : Bool

/-- The numbers that read back as `m * 2 ^ e`.  Below a power of two the gap is half as wide. -/
def span (x : Binary64) : Span :=
  let gap := if x.significand = Nat.pow 2 52 ∧ minExponent < x.exponent then 1 else 2
  let e := x.exponent - 2
  let scale := Nat.pow 2 e.toNat
  { low := (4 * x.significand - gap) * scale
    value := 4 * x.significand * scale
    high := (4 * x.significand + 2) * scale
    unit := Nat.pow 2 (-e).toNat
    closed := x.significand % 2 == 0 }

/-- Whether `n / unit` lies in the span. -/
def Span.holds (s : Span) (low high n : Nat) : Bool :=
  if s.closed then decide (low ≤ n) && decide (n ≤ high)
  else decide (low < n) && decide (n < high)

/-- The point of a grid that reads back and is nearest to the value, if there is one. -/
def Span.hit? (s : Span) (tens : Int) : Option Point :=
  let up := Nat.pow 10 (-tens).toNat
  let step := s.unit * Nat.pow 10 tens.toNat
  let value := s.value * up
  let q := value / step
  let below := s.holds (s.low * up) (s.high * up) (q * step)
  let above := s.holds (s.low * up) (s.high * up) ((q + 1) * step)
  if below && above then
    some ⟨Rounding.halfEven value step, tens⟩
  else if below then some ⟨q, tens⟩
  else if above then some ⟨q + 1, tens⟩
  else none

/-- The first point that reads back, from the coarsest grid down. -/
def Span.search (s : Span) : Nat → Int → Option Point
  | 0, _ => none
  | bound + 1, tens =>
    match s.hit? tens with
    | some p => some p
    | none => s.search bound (tens - 1)

/-- The decimal of fewest digits that reads back as the number, which is not zero. -/
def shortest (x : Binary64) : Point :=
  let s := x.span
  let start := (Digits.ofNat (s.value / s.unit)).length
  (s.search (start + 400) start).getD ⟨0, 0⟩

/-! ### Layout -/

/-- Digits with the point behind the first of them. -/
def pointed : List Char → List Char
  | [] => []
  | [c] => [c]
  | c :: cs => c :: '.' :: cs

/-- The text of a decimal grid point. -/
def Point.chars (p : Point) : List Char :=
  let ds := Digits.chars (Digits.ofNat p.digits)
  let whole := ds.length + p.tens
  if 16 < whole ∨ whole ≤ -5 then
    let e := whole - 1
    pointed ds ++ ['e', if e < 0 then '-' else '+'] ++ Digits.chars (Digits.ofNat e.natAbs)
  else if 0 ≤ p.tens then ds ++ List.replicate p.tens.toNat '0' ++ ['.', '0']
  else if 0 < whole then ds.take whole.toNat ++ '.' :: ds.drop whole.toNat
  else ['0', '.'] ++ List.replicate (-whole).toNat '0' ++ ds

/-- The text of a double precision number. -/
def text (x : Binary64) : String :=
  let body := if x.significand = 0 then ['0', '.', '0'] else x.shortest.chars
  String.ofList (if x.negative then '-' :: body else body)

end Binary64

end MarketFeed
