namespace Cjson.Text

/-- One hexadecimal digit, in lower case. -/
def hexDigit (n : Nat) : Char :=
  (Nat.digitChar (n % 16))

/-- How a character is written between quotation marks: backslash and quotation
mark with a backslash, and no control character as it is. -/
def escape : Char → List Char
  | '\\' => ['\\', '\\']
  | '"' => ['\\', '"']
  | '\n' => ['\\', 'n']
  | '\r' => ['\\', 'r']
  | '\t' => ['\\', 't']
  | '\x08' => ['\\', 'b']
  | '\x0c' => ['\\', 'f']
  | c =>
    if c.toNat < 0x20 then
      ['\\', 'u', '0', '0', hexDigit (c.toNat / 16), hexDigit c.toNat]
    else
      [c]

/-- The quoted form of `s`, followed by `tail`. -/
def quotedOnto (s : List Char) (tail : List Char) : List Char :=
  '"' :: s.foldr (fun c written => escape c ++ written) ('"' :: tail)

def quoted (s : String) : String :=
  .ofList (quotedOnto s.toList [])

/-- A character as messages show it. Quotes are called by their names, for they
would be hard to read between quotes. -/
def shown : Char → String
  | '\'' => "\"apostrophe-quote\""
  | '"' => "\"quotation mark\""
  | c => "'" ++ .ofList (escape c) ++ "'"

end Cjson.Text
