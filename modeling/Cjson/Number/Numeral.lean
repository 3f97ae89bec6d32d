import Cjson.Number

namespace Cjson

/-- The parts of a written number. -/
structure Numeral where
  negative : Bool
  whole : List Char
  fraction : List Char
  exponent : Int
  deriving DecidableEq

namespace Numeral

/-- The text before the first character with `p`, and the text after it if there is one. -/
def splitFirst (p : Char → Bool) (s : List Char) : List Char × Option (List Char) :=
  (s.takeWhile (!p ·), (s.dropWhile (!p ·)).tail?)

/-- Takes a sign off; tells whether it is a minus. -/
def sign : List Char → Bool × List Char
  | '-' :: rest => (true, rest)
  | '+' :: rest => (false, rest)
  | s => (false, s)

def signed (negative : Bool) (n : Nat) : Int :=
  if negative then -n else n

/-- Reads an optional sign and at least one digit. -/
def readInt? (s : List Char) : Option Int :=
  let (negative, digits) := sign s
  if digits.isEmpty || !digits.all Char.isDigit then
    none
  else
    some (signed negative (Nat.ofDigitChars 10 digits 0))

def readInt32? (s : List Char) : Option Int32 :=
  (readInt? s).bind fun n => if Number.fits32 n then some (.ofInt n) else none

/-- An exponent has to fit into 64 bits. -/
def readExponent? : Option (List Char) → Option Int
  | none => some 0
  | some s => (readInt? s).filter Number.fits64

/-- Reads an optional sign, digits with at most one point among them, and an optional
exponent. -/
def read? (s : List Char) : Option Numeral := do
  let (negative, unsigned) := sign s
  let (digits, exponent) := splitFirst (fun c => c == 'e' || c == 'E') unsigned
  let (whole, fraction) := splitFirst (· == '.') digits
  let fraction := fraction.getD []
  let exponent ← readExponent? exponent
  guard (!(whole.isEmpty && fraction.isEmpty) && whole.all Char.isDigit &&
    fraction.all Char.isDigit)
  return ⟨negative, whole, fraction, exponent⟩

/-- The integer that all digits make up, without the sign. -/
def magnitude (n : Numeral) : Nat :=
  Nat.ofDigitChars 10 (n.whole ++ n.fraction) 0

/-- The count of fraction digits once the exponent is applied; it has to fit into
64 bits. -/
def scale? (n : Numeral) : Option Int :=
  let scale := n.fraction.length - n.exponent
  if Number.fits64 scale then some scale else none

/-- A magnitude and a scale that is not negative, as a decimal: zeros are taken off
as long as there are too many fraction digits. -/
def decimalOf? (negative : Bool) (magnitude scale : Nat) : Option Decimal :=
  if magnitude = 0 then
    Decimal.ofParts? 0 (min scale 28)
  else
    let (rest, count) := Number.dropZeros (scale - 28) magnitude
    Decimal.ofParts? (signed negative rest) (scale - count)

/-- Numbers with more than 38 digits are not decimals, whatever their zeros. -/
def decimal? (n : Numeral) : Option Decimal := do
  let scale ← n.scale?
  guard (-38 ≤ scale)
  let magnitude := n.magnitude * Number.tenTo (-scale).toNat
  guard (magnitude < Number.tenTo 38)
  decimalOf? n.negative magnitude scale.toNat

def bigDecimal? (n : Numeral) : Option BigDecimal :=
  n.scale?.map (⟨signed n.negative n.magnitude, ·⟩)

end Numeral
end Cjson
