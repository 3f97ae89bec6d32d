import Cjson.Character.Alphanumeric
import Cjson.Character.Unprintable

namespace Cjson.Character

/-- Membership in a table of ascending inclusive ranges. -/
def inRanges : List (Nat × Nat) → Nat → Bool
  | [], _ => false
  | (low, high) :: rest, n => low ≤ n && (n ≤ high || inRanges rest n)

/-- The Unicode property White_Space. -/
def isWhiteSpace (c : Char) : Bool :=
  inRanges [(0x09, 0x0D), (0x20, 0x20), (0x85, 0x85), (0xA0, 0xA0), (0x1680, 0x1680),
    (0x2000, 0x200A), (0x2028, 0x2029), (0x202F, 0x202F), (0x205F, 0x205F),
    (0x3000, 0x3000)] c.toNat

/-- A blank may stand between the parts of a text: white space other than the
no-break spaces and NEL, the four ASCII separators, and the byte order mark. -/
def isBlank (c : Char) : Bool :=
  c == '\ufeff' || inRanges [(0x1C, 0x1F)] c.toNat ||
    (isWhiteSpace c && c != '\x85' && c != '\xa0' && c != '\u2007' && c != '\u202f')

def isLineBreak (c : Char) : Bool :=
  c == '\n' || c == '\r'

/-- The characters of which words are made: unquoted strings, numbers and the
names of functions. -/
def isWordChar (c : Char) : Bool :=
  if c.toNat < 0x80 then
    c.isAlphanum || c == '$' || c == '-' || c == '.' || c == '@' || c == '_'
  else
    inRanges alphanumericRanges c.toNat

/-- Whether the character can be shown as it is. -/
def isPrintable (c : Char) : Bool :=
  0x20 ≤ c.toNat && c.toNat != 0x7F && !inRanges unprintableRanges c.toNat

end Cjson.Character
