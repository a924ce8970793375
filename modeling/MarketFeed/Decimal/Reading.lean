import MarketFeed.Decimal.Basic

/-!
# Reading decimals

A decimal is read from plain notation (`Decimal.plain`): a sign, digits with one point anywhere, and
separators `_` after the first digit.  Digits after the point that no longer fit are rounded away,
half away from zero.  A text that plain notation does not cover may be in scientific notation
(`Decimal.scientific`), a plain base with a power of ten.  `Decimal.read` accepts either; a
`Decimal.Fault` says why a text is neither.
-/

namespace MarketFeed

namespace Decimal

/-- Why a text is no decimal. -/
inductive Fault where
  | empty
  | secondPoint
  | leadingSeparator
  | unknownCharacter
  | noDigits
  | tooManyDigits
  | roundingOverflow
  | badExponent
  | scaleTooLarge (exponent : Nat)
  | tooLarge
  deriving DecidableEq, Repr

/-- The wording of a fault. -/
def Fault.message : Fault → String
  | .empty => "Invalid decimal: empty"
  | .secondPoint => "Invalid decimal: two decimal points"
  | .leadingSeparator => "Invalid decimal: must start lead with a number"
  | .unknownCharacter => "Invalid decimal: unknown character"
  | .noDigits => "Invalid decimal: no digits found"
  | .tooManyDigits => "Invalid decimal: overflow from too many digits"
  | .roundingOverflow => "Invalid decimal: overflow from mantissa after rounding"
  | .badExponent => "Failed to parse"
  | .scaleTooLarge e =>
    "Scale exceeds the maximum precision allowed: " ++ Text.ofNat e ++ " > " ++ Text.ofNat maxScale
  | .tooLarge => "Number exceeds maximum value that can be represented."

/-- The fault of a character that is out of place. -/
def Fault.ofChar (c : Char) : Fault :=
  if c = '.' then .secondPoint else if c = '_' then .leadingSeparator else .unknownCharacter

/-! ### Rounding the digits that do not fit -/

/-- Rounds the mantissa up by one.  One that leaves the range gives up its last place. -/
def roundUp (d : Decimal) : Except Fault Decimal :=
  match ofParts? d.negative (d.mantissa + 1) d.scale with
  | some d => .ok d
  | none =>
    if d.scale = 0 then .error .roundingOverflow
    else
      match ofParts? d.negative ((d.mantissa + 5) / 10) (d.scale - 1) with
      | some d => .ok d
      | none => .error .roundingOverflow

/-- The fault of the first character that is neither a digit nor a separator, if there is one. -/
def dropped : List Char → Except Fault Unit
  | [] => .ok ()
  | c :: cs => if c = '_' ∨ (Digit.ofChar? c).isSome then dropped cs else .error (.ofChar c)

/-- Rounds on the first digit that does not fit and drops the characters after it. -/
def roundOn (d : Decimal) (digit : Digit) (rest : List Char) : Except Fault Decimal := do
  let d ← if digit.val < 5 then pure d else roundUp d
  dropped rest
  pure d.plainZero

/-- Rounds a decimal with all its places used on the next character.  After a long mantissa the
separators before that character are skipped; otherwise a separator counts as the digit zero. -/
def roundNext (d : Decimal) (long : Bool) (cs : List Char) : Except Fault Decimal :=
  match if long then cs.dropWhile (· == '_') else cs with
  | [] => .ok d.plainZero
  | c :: rest =>
    match Digit.ofChar? c with
    | some digit => roundOn d digit rest
    | none => if c = '_' then roundOn d Digit.zero rest else .error (.ofChar c)

/-! ### Plain notation -/

/-- The decimal with one more digit, which is a place when the point has been passed. -/
def push? (d : Decimal) (digit : Digit) (isPlace : Bool) : Option Decimal :=
  ofParts? d.negative (d.mantissa * 10 + digit.val) (if isPlace then d.scale + 1 else d.scale)

/-- What has been read of a text in plain notation. -/
structure Scan where
  value : Decimal
  pointSeen : Bool
  digitSeen : Bool
  long : Bool

/-- The mantissa from which on a mantissa counts as long. -/
def longMantissa : Nat := (UInt64.size - 1) / 10 - 255

/-- Whether no further place can be read. -/
def Scan.full (s : Scan) : Bool := s.pointSeen && s.value.scale == maxScale

/-- The state after a digit that fits. -/
def Scan.push (s : Scan) (value : Decimal) : Scan :=
  let s := { s with value, digitSeen := true }
  { s with long := s.long || (!s.full && decide (longMantissa ≤ value.mantissa)) }

/-- Reads the rest of a text in plain notation. -/
def Scan.run : Scan → List Char → Except Fault Decimal
  | s, [] => if s.digitSeen then .ok s.value.plainZero else .error .noDigits
  | s, c :: cs =>
    if s.full then roundNext s.value s.long (c :: cs)
    else
      match Digit.ofChar? c with
      | some digit =>
        match s.value.push? digit s.pointSeen with
        | some value => (s.push value).run cs
        | none => if s.pointSeen then roundOn s.value digit cs else .error .tooManyDigits
      | none =>
        if c = '.' ∧ s.pointSeen = false then Scan.run { s with pointSeen := true } cs
        else if c = '_' ∧ s.digitSeen = true then s.run cs
        else .error (.ofChar c)

/-- The state before the first digit. -/
def Scan.begin (negative : Bool) : Scan :=
  ⟨{ zero with negative }, false, false, false⟩

/-- Reads plain notation. -/
def plain : List Char → Except Fault Decimal
  | [] => .error .empty
  | '-' :: cs => (Scan.begin true).run cs
  | '+' :: cs => (Scan.begin false).run cs
  | cs => (Scan.begin false).run cs

/-! ### Scientific notation -/

/-- The natural number below `2 ^ 32` that characters spell, with an optional plus sign. -/
def magnitude? (cs : List Char) : Option Nat :=
  let ds := match cs with
    | '+' :: cs => cs
    | cs => cs
  if ds.isEmpty then none
  else
    match ds.mapM Digit.ofChar? with
    | some ds => if Digits.value ds < UInt32.size then some (Digits.value ds) else none
    | none => none

/-- Divides by a power of ten, rounding half away from zero. -/
def roundedQuotient (n places : Nat) : Nat :=
  n / Nat.pow 10 places + (if places ≠ 0 ∧ 5 ≤ n / Nat.pow 10 (places - 1) % 10 then 1 else 0)

/-- Moves the point to the left.  Places beyond the last are rounded away. -/
def shiftLeft (d : Decimal) (places : Nat) : Except Fault Decimal :=
  if maxScale < places then .error (.scaleTooLarge places)
  else
    let excess := d.scale + places - maxScale
    match ofParts? d.negative (roundedQuotient d.mantissa excess) (d.scale + places - excess) with
    | some d => .ok d
    | none => .error .tooLarge

/-- Moves the point to the right.  Beyond the last place the mantissa grows instead. -/
def shiftRight (d : Decimal) (places : Nat) : Except Fault Decimal :=
  if maxScale < places then .error (.scaleTooLarge places)
  else
    match ofParts? d.negative (d.mantissa * Nat.pow 10 (places - d.scale)) (d.scale - places) with
    | some d => .ok d
    | none => .error .tooLarge

/-- Whether a character separates a base from its exponent. -/
def isExponentMark (c : Char) : Bool := c == 'e' || c == 'E'

/-- Reads a plain base and the power of ten behind the first exponent mark. -/
def scientific (base exponent : List Char) : Except Fault Decimal := do
  let d ← plain base
  match exponent with
  | '-' :: cs =>
    match magnitude? cs with
    | some places => shiftLeft d places
    | none => .error .badExponent
  | cs =>
    match magnitude? cs with
    | some places => shiftRight d places
    | none => .error .badExponent

/-- Reads plain or scientific notation. -/
def readChars (cs : List Char) : Except Fault Decimal :=
  match plain cs with
  | .ok d => .ok d
  | .error fault =>
    match cs.dropWhile (!isExponentMark ·) with
    | [] => .error fault
    | _ :: exponent => scientific (cs.takeWhile (!isExponentMark ·)) exponent

/-- Reads a decimal from a text. -/
def read (s : String) : Except Fault Decimal := readChars s.toList

end Decimal

end MarketFeed
