import Cjson.Character

namespace Cjson.Text

/-- A character that shows itself, or an escape that does. -/
def visible (c : Char) : List Char :=
  match c with
  | '\x00' => ['\\', '0']
  | '\t' => ['\\', 't']
  | '\r' => ['\\', 'r']
  | '\n' => ['\\', 'n']
  | '"' => ['\\', '"']
  | '\\' => ['\\', '\\']
  | c =>
    if Character.isPrintable c then
      [c]
    else
      '\\' :: 'u' :: '\x7b' :: Nat.toDigits 16 c.toNat ++ ['\x7d']

/-- A string in quotes with each of its characters visible. -/
def quoteVisible (s : String) : String :=
  .ofList ('"' :: s.toList.flatMap visible ++ ['"'])

end Cjson.Text
