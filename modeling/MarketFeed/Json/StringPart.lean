import MarketFeed.Text.Utf8
import MarketFeed.Text.Characters
import MarketFeed.Json.Octet

/-!
# String literals

What stands between the quotes of a JSON string, as a list of parts: octets that stand for
themselves and escapes.  `StringPart.scan` reads the parts up to the closing quote,
`StringPart.text` writes them, `StringPart.decode?` gives the text they stand for, and
`StringPart.encode` the parts that stand for a text.
-/

namespace MarketFeed

namespace Json

/-- A part of a string literal: an octet, an escaped letter, or four hexadecimal digits. -/
inductive StringPart where
  | octet (b : UInt8)
  | letter (b : UInt8)
  | code (a b c d : UInt8)
  deriving DecidableEq, Repr

namespace StringPart

/-- The octets of a part. -/
def octets : StringPart → List UInt8
  | octet b => [b]
  | letter b => [Octet.backslash, b]
  | code a b c d => [Octet.backslash, Octet.smallU, a, b, c, d]

/-- The octets of a string literal, quotes included. -/
def text (body : List StringPart) : List UInt8 :=
  Octet.quote :: body.flatMap octets ++ [Octet.quote]

/-- The value of a hexadecimal digit. -/
def hexValue? (b : UInt8) : Option Nat :=
  let n := b.toNat
  if 48 ≤ n ∧ n < 58 then some (n - 48)
  else if 65 ≤ n ∧ n < 71 then some (n - 55)
  else if 97 ≤ n ∧ n < 103 then some (n - 87)
  else none

/-- The octet that an escaped letter stands for. -/
def meaning? (b : UInt8) : Option UInt8 :=
  if b = Octet.quote ∨ b = Octet.backslash ∨ b = 0x2F then some b
  else if b = 0x62 then some 0x08
  else if b = 0x66 then some 0x0C
  else if b = 0x6E then some 0x0A
  else if b = 0x72 then some 0x0D
  else if b = 0x74 then some 0x09
  else none

/-- The parts up to the closing quote, and what follows it. -/
def scan? : List UInt8 → Option (List StringPart × List UInt8)
  | [] => none
  | b :: s =>
    if b = Octet.quote then some ([], s)
    else if b = Octet.backslash then
      match s with
      | [] => none
      | c :: s =>
        if c = Octet.smallU then
          match s with
          | h₁ :: h₂ :: h₃ :: h₄ :: s =>
            if [h₁, h₂, h₃, h₄].all (hexValue? · |>.isSome) then
              (scan? s).map fun (body, rest) => (code h₁ h₂ h₃ h₄ :: body, rest)
            else none
          | _ => none
        else if (meaning? c).isSome then
          (scan? s).map fun (body, rest) => (letter c :: body, rest)
        else none
    else if b < 0x20 then none
    else (scan? s).map fun (body, rest) => (octet b :: body, rest)

/-! ### Meaning -/

/-- The code unit that four hexadecimal digits spell. -/
def unit (a b c d : UInt8) : Nat :=
  [a, b, c, d].foldl (fun n h => n * 16 + (hexValue? h).getD 0) 0

/-- Whether a code unit is the first half of a surrogate pair. -/
def isHigh (n : Nat) : Bool := decide (0xD800 ≤ n ∧ n < 0xDC00)

/-- Whether a code unit is the second half of a surrogate pair. -/
def isLow (n : Nat) : Bool := decide (0xDC00 ≤ n ∧ n < 0xE000)

/-- The octets that the parts stand for.  The two halves of a surrogate pair stand side by side. -/
def meaningOf? : List StringPart → Option (List UInt8)
  | [] => some []
  | octet b :: body => (meaningOf? body).map (b :: ·)
  | letter b :: body => do
    let b ← meaning? b
    let s ← meaningOf? body
    return b :: s
  | code a b c d :: body =>
    let n := unit a b c d
    if isHigh n then
      match body with
      | code a' b' c' d' :: body =>
        let n' := unit a' b' c' d'
        if isLow n' then
          let u := 0x10000 + (n - 0xD800) * 0x400 + (n' - 0xDC00)
          (meaningOf? body).map (String.utf8EncodeChar (Char.ofNat u) ++ ·)
        else none
      | _ => none
    else if isLow n then none
    else (meaningOf? body).map (String.utf8EncodeChar (Char.ofNat n) ++ ·)

/-- The text that the parts stand for, unless a surrogate stands alone or the octets are not
UTF-8. -/
def decode? (body : List StringPart) : Option String := do
  let s ← meaningOf? body
  return String.ofList (← Utf8.decode? s)

/-! ### Writing -/

/-- The octet of a hexadecimal digit in lower case. -/
def hexOctet (n : Nat) : UInt8 := UInt8.ofNat (Text.hexDigit n).toNat

/-- The parts for one character: an escape for quotes, backslashes and control characters. -/
def ofChar (c : Char) : List StringPart :=
  if c = '"' then [letter Octet.quote]
  else if c = '\\' then [letter Octet.backslash]
  else if c = '\x08' then [letter 0x62]
  else if c = '\t' then [letter 0x74]
  else if c = '\n' then [letter 0x6E]
  else if c = '\x0c' then [letter 0x66]
  else if c = '\r' then [letter 0x72]
  else if c.toNat < 0x20 then [code 0x30 0x30 (hexOctet (c.toNat / 16)) (hexOctet (c.toNat % 16))]
  else (String.utf8EncodeChar c).map octet

/-- The parts that stand for a text. -/
def encode (s : String) : List StringPart := s.toList.flatMap ofChar

end StringPart

end Json

end MarketFeed
