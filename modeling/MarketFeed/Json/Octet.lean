/-!
# Octets of the grammar

Names for the octets that the JSON grammar gives a meaning, and the blanks it allows between tokens
(`Json.Gap`).
-/

namespace MarketFeed

namespace Json

namespace Octet

abbrev quote : UInt8 := 0x22
abbrev plus : UInt8 := 0x2B
abbrev comma : UInt8 := 0x2C
abbrev minus : UInt8 := 0x2D
abbrev point : UInt8 := 0x2E
abbrev colon : UInt8 := 0x3A
abbrev capitalE : UInt8 := 0x45
abbrev openBracket : UInt8 := 0x5B
abbrev backslash : UInt8 := 0x5C
abbrev closeBracket : UInt8 := 0x5D
abbrev smallE : UInt8 := 0x65
abbrev smallU : UInt8 := 0x75
abbrev openBrace : UInt8 := 0x7B
abbrev closeBrace : UInt8 := 0x7D

/-- Whether an octet is a space, a tab, a line feed or a carriage return. -/
def isBlank (b : UInt8) : Bool := b == 0x20 || b == 0x09 || b == 0x0A || b == 0x0D

end Octet

/-- The blanks between two tokens. -/
abbrev Gap := List UInt8

/-- The blanks at the start of the octets. -/
def takeGap (s : List UInt8) : Gap := s.takeWhile Octet.isBlank

/-- The octets from the first one that is no blank. -/
def dropGap (s : List UInt8) : List UInt8 := s.dropWhile Octet.isBlank

end Json

end MarketFeed
