namespace Cjson

namespace Number

/-- The number that is written as a one with this many zeros. -/
abbrev tenTo (zeros : Nat) : Nat :=
  Nat.pow 10 zeros

theorem tenTo_succ (zeros : Nat) : tenTo (zeros + 1) = tenTo zeros * 10 := rfl

/-- Takes at most `limit` trailing zeros off `n`, and counts them. -/
def dropZeros : (limit : Nat) → (n : Nat) → Nat × Nat
  | 0, n => (n, 0)
  | limit + 1, n =>
    if n % 10 = 0 then
      let (rest, count) := dropZeros limit (n / 10)
      (rest, count + 1)
    else
      (n, 0)

theorem dropZeros_eq (limit n : Nat) :
    (dropZeros limit n).1 * tenTo (dropZeros limit n).2 = n := by
  induction limit generalizing n with
  | zero => simp [dropZeros]
  | succ limit ih =>
    unfold dropZeros
    split
    · have := ih (n / 10)
      simp only [tenTo_succ, ← Nat.mul_assoc, this]
      omega
    · simp

/-- The decimal digits of an integer, after a minus sign if it is negative. -/
def write (n : Int) : List Char :=
  if n < 0 then '-' :: Nat.toDigits 10 n.natAbs else Nat.toDigits 10 n.natAbs

def fits32 (n : Int) : Bool :=
  -0x80000000 ≤ n && n < 0x80000000

def fits64 (n : Int) : Bool :=
  -0x8000000000000000 ≤ n && n < 0x8000000000000000

end Number

/-- The number `mantissa * 10 ^ (-scale)`. -/
structure BigDecimal where
  mantissa : Int
  scale : Int
  deriving DecidableEq

namespace BigDecimal

/-- The same number with no trailing zero in its mantissa. -/
def reduce (d : BigDecimal) : BigDecimal :=
  if d.mantissa = 0 then
    ⟨0, 0⟩
  else
    let (rest, count) := Number.dropZeros d.mantissa.natAbs d.mantissa.natAbs
    ⟨d.mantissa.sign * rest, d.scale - count⟩

/-- Two numbers are equal if their reduced forms are, so 1.0 equals 1.00. -/
def same (a b : BigDecimal) : Bool :=
  a.reduce = b.reduce

/-- The number as a 64-bit integer. A reduced form with a positive scale is no
integer, and with 19 more zeros every integer but 0 is out of range. -/
def toInt64? (d : BigDecimal) : Option Int64 :=
  let r := d.reduce
  if 0 < r.scale ∨ r.scale < -18 then
    none
  else
    let n := r.mantissa * Number.tenTo (-r.scale).toNat
    if Number.fits64 n then some (.ofInt n) else none

/-- The mantissa, and after it the exponent if it is not zero. `plus` is put in front
of an exponent that is not negative. -/
def write (plus : List Char) (d : BigDecimal) : List Char :=
  if d.scale = 0 then
    Number.write d.mantissa
  else
    Number.write d.mantissa ++ 'e' :: (if 0 < d.scale then [] else plus) ++
      Number.write (-d.scale)

end BigDecimal

/-- The number `mantissa * 10 ^ (-scale)`, with a mantissa of at most 96 bits and at
most 28 fraction digits. -/
structure Decimal where
  mantissa : Int
  scale : Nat
  mantissa_lt : mantissa.natAbs < 0x1000000000000000000000000
  scale_le : scale ≤ 28
  deriving DecidableEq

namespace Decimal

def ofParts? (mantissa : Int) (scale : Nat) : Option Decimal :=
  if h : mantissa.natAbs < 0x1000000000000000000000000 ∧ scale ≤ 28 then
    some ⟨mantissa, scale, h.1, h.2⟩
  else
    none

def toBigDecimal (d : Decimal) : BigDecimal :=
  ⟨d.mantissa, d.scale⟩

/-- Plain digits, as many of them after the point as the scale says. -/
def write (d : Decimal) : List Char :=
  let n := d.mantissa.natAbs
  let whole := Nat.toDigits 10 (n / Number.tenTo d.scale)
  let fraction := (Nat.toDigits 10 (n % Number.tenTo d.scale)).leftpad d.scale '0'
  (if d.mantissa < 0 then ['-'] else []) ++ whole ++
    if d.scale = 0 then [] else '.' :: fraction

end Decimal
end Cjson
