import Cjson.Value.Text

namespace Cjson.Value

/-- What JSON has no form for goes out as the string of its single line. -/
def jsonScalarOnto (v : Value) (tail : List Char) : List Char :=
  match v with
  | bigDecimal d => d.write ['+'] ++ tail
  | fragment _ | foreign _ | call _ _ => Text.quotedOnto (lineOnto v []) tail
  | v => scalarOnto v tail

mutual

def compactOnto : Value → List Char → List Char
  | list items, tail => '[' :: compactItemsOnto items (']' :: tail)
  | map entries, tail => '\x7b' :: compactMembersOnto entries ('\x7d' :: tail)
  | v, tail => jsonScalarOnto v tail

def compactItemsOnto : List Value → List Char → List Char
  | [], tail => tail
  | [v], tail => compactOnto v tail
  | v :: rest, tail => compactOnto v (',' :: compactItemsOnto rest tail)

def compactMembersOnto : Entries Value → List Char → List Char
  | [], tail => tail
  | [(key, v)], tail => Text.quotedOnto key.toList (':' :: compactOnto v tail)
  | (key, v) :: rest, tail =>
    Text.quotedOnto key.toList (':' :: compactOnto v (',' :: compactMembersOnto rest tail))

end

/-- A new line of pretty JSON. -/
def breakOnto (depth : Nat) (tail : List Char) : List Char :=
  '\n' :: List.replicate (2 * depth) ' ' ++ tail

mutual

def prettyOnto (depth : Nat) : Value → List Char → List Char
  | list [], tail => '[' :: ']' :: tail
  | list items, tail =>
    '[' :: prettyItemsOnto (depth + 1) items (breakOnto depth (']' :: tail))
  | map [], tail => '\x7b' :: '\x7d' :: tail
  | map entries, tail =>
    '\x7b' :: prettyMembersOnto (depth + 1) entries (breakOnto depth ('\x7d' :: tail))
  | v, tail => jsonScalarOnto v tail

def prettyItemsOnto (depth : Nat) : List Value → List Char → List Char
  | [], tail => tail
  | [v], tail => breakOnto depth (prettyOnto depth v tail)
  | v :: rest, tail =>
    breakOnto depth (prettyOnto depth v (',' :: prettyItemsOnto depth rest tail))

def prettyMembersOnto (depth : Nat) : Entries Value → List Char → List Char
  | [], tail => tail
  | [(key, v)], tail =>
    breakOnto depth (Text.quotedOnto key.toList (':' :: ' ' :: prettyOnto depth v tail))
  | (key, v) :: rest, tail =>
    breakOnto depth (Text.quotedOnto key.toList
      (':' :: ' ' :: prettyOnto depth v (',' :: prettyMembersOnto depth rest tail)))

end

def compactJson (v : Value) : String :=
  .ofList (compactOnto v [])

def prettyJson (v : Value) : String :=
  .ofList (prettyOnto 0 v [])

end Cjson.Value
