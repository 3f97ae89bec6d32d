import Cjson.Charset.Decoder

namespace Cjson.Charset.Utf16

/-- A lead surrogate that wants its trail surrogate, and the first byte of a unit. -/
structure Pending where
  lead : Option Nat
  byte : Option Nat

def isLead (u : Nat) : Bool :=
  0xD800 ≤ u && u ≤ 0xDBFF

def isTrail (u : Nat) : Bool :=
  0xDC00 ≤ u && u ≤ 0xDFFF

/-- Begins a character with a unit. A trail surrogate can't begin one. -/
def first (u : Nat) : List Char × Option Nat :=
  if isLead u then ([], some u)
  else if isTrail u then ([replacementChar], none)
  else ([.ofNat u], none)

/-- Takes a unit behind a lead surrogate, if there is one. A surrogate without its partner
stands for one replacement character. -/
def unit : (lead : Option Nat) → Nat → List Char × Option Nat
  | none, u => first u
  | some l, u =>
    if isTrail u then
      ([.ofNat (0x10000 + 0x400 * (l - 0xD800) + (u - 0xDC00))], none)
    else
      let (cs, lead) := first u
      (replacementChar :: cs, lead)

def decoder (bigEndian : Bool) : Decoder Pending where
  start := ⟨none, none⟩
  step
    | ⟨lead, none⟩, b => ([], ⟨lead, some b.toNat⟩)
    | ⟨lead, some a⟩, b =>
      let (cs, lead) := unit lead (if bigEndian then 256 * a + b.toNat else 256 * b.toNat + a)
      (cs, ⟨lead, none⟩)
  finish
    | ⟨none, none⟩ => []
    | _ => [replacementChar]

end Cjson.Charset.Utf16
