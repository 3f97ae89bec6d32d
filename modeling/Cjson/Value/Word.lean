import Cjson.Number.Numeral
import Cjson.Value

namespace Cjson.Value

/-- The number that a text spells, in the smallest variant that has room for it. -/
def ofNumeral? (s : List Char) : Option Value :=
  match Numeral.readInt32? s with
  | some n => some (.int n)
  | none => do
    let n ← Numeral.read? s
    (Value.decimal <$> n.decimal?) <|> (Value.bigDecimal <$> n.bigDecimal?)

/-- The number that a word stands for. The first character decides whether a word can be
one; a plus sign in front does not count. -/
def number? : List Char → Option Value
  | '+' :: s => ofNumeral? s
  | s@(c :: _) => if c.isDigit || c == '-' then ofNumeral? s else none
  | [] => none

/-- What a word stands for: a keyword, a number, or else its own text. -/
def ofWord (w : List Char) : Value :=
  if w = "true".toList then .boolean true
  else if w = "false".toList then .boolean false
  else if w = "null".toList then .null
  else (number? w).getD (.string (.ofList w))

end Cjson.Value
