import Cjson.Charset.Decoder

namespace Cjson.Charset.Utf8

/-- A sequence that is not complete: how many bytes it lacks, between which bounds the
next of them has to be, and the bits so far. -/
structure Pending where
  lacking : Nat
  low : Nat
  high : Nat
  bits : Nat

/-- Begins a sequence. The bounds keep out overlong forms, surrogates, and code points that
are too large. -/
def first (b : Nat) : List Char × Option Pending :=
  if b < 0x80 then ([.ofNat b], none)
  else if 0xC2 ≤ b ∧ b ≤ 0xDF then ([], some ⟨1, 0x80, 0xBF, b - 0xC0⟩)
  else if 0xE0 ≤ b ∧ b ≤ 0xEF then
    ([], some ⟨2, if b = 0xE0 then 0xA0 else 0x80, if b = 0xED then 0x9F else 0xBF, b - 0xE0⟩)
  else if 0xF0 ≤ b ∧ b ≤ 0xF4 then
    ([], some ⟨3, if b = 0xF0 then 0x90 else 0x80, if b = 0xF4 then 0x8F else 0xBF, b - 0xF0⟩)
  else ([replacementChar], none)

/-- Goes on with a sequence. Where it breaks off, its bytes so far stand for one replacement
character, and the byte that does not fit begins another sequence. -/
def next (p : Pending) (b : Nat) : List Char × Option Pending :=
  if p.low ≤ b ∧ b ≤ p.high then
    let bits := 64 * p.bits + (b - 0x80)
    if p.lacking = 1 then ([.ofNat bits], none)
    else ([], some ⟨p.lacking - 1, 0x80, 0xBF, bits⟩)
  else
    let (cs, pending) := first b
    (replacementChar :: cs, pending)

def decoder : Decoder (Option Pending) where
  start := none
  step
    | none, b => first b.toNat
    | some p, b => next p b.toNat
  finish
    | none => []
    | some _ => [replacementChar]

end Cjson.Charset.Utf8
