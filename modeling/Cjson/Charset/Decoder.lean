namespace Cjson.Charset

/-- What stands for bytes that are no character. -/
def replacementChar : Char := '\ufffd'

/-- A decoder with what it remembers of the bytes before, of type `ρ`. -/
structure Decoder (ρ : Type) where
  start : ρ
  step : ρ → UInt8 → List Char × ρ
  /-- The characters for what is incomplete at the end. -/
  finish : ρ → List Char

namespace Decoder

variable {ρ : Type} (d : Decoder ρ)

/-- Goes on after `read`, the last character of it first. -/
def decodeFrom (read : List Char) (r : ρ) : List UInt8 → List Char
  | [] => ((d.finish r).reverse ++ read).reverse
  | b :: rest => decodeFrom ((d.step r b).1.reverse ++ read) (d.step r b).2 rest

def decode (bytes : List UInt8) : List Char :=
  d.decodeFrom [] d.start bytes

theorem decodeFrom_eq_append (read : List Char) (r : ρ) (bytes : List UInt8) :
    d.decodeFrom read r bytes = read.reverse ++ d.decodeFrom [] r bytes := by
  induction bytes generalizing read r with
  | nil => simp [decodeFrom]
  | cons b rest ih =>
    rw [decodeFrom, ih, decodeFrom, ih ((d.step r b).1.reverse ++ [])]
    simp

/-- The characters of the first byte stand in front. -/
theorem decodeFrom_cons (r : ρ) (b : UInt8) (rest : List UInt8) :
    d.decodeFrom [] r (b :: rest) = (d.step r b).1 ++ d.decodeFrom [] (d.step r b).2 rest := by
  rw [decodeFrom, decodeFrom_eq_append]
  simp

end Decoder
end Cjson.Charset
