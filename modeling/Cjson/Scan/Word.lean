import Cjson.Scan.Gap

namespace Cjson.Scan

/-- Reads a word: word characters, or a plus sign with word characters behind it if
there are any. -/
def word : Scan (List Char) := do
  let start ← position
  let sign ← takeUpTo 1 (· == '+')
  let letters ← takeWhile Character.isWordChar
  if sign.isEmpty && letters.isEmpty then
    fail .unexpectedCharacter start
  return sign ++ letters

/-- Reads a word, and tells whether it calls a function. If it does, the cursor goes
behind the parenthesis that opens the arguments, and otherwise directly behind the word. -/
def wordOrCall : Scan (List Char × Bool) := do
  let w ← word
  let behind ← get
  let _ ← gap
  if (← peek) = some '(' then
    advance
    return (w, true)
  else
    set behind
    return (w, false)

end Cjson.Scan
