import Cjson.Text.Quoted
import Cjson.Value

namespace Cjson.Value

/-- What is written alike on one line and on many: everything but lists and maps, and
for a call everything but its arguments. -/
def scalarOnto (v : Value) (tail : List Char) : List Char :=
  match v with
  | null => "null".toList ++ tail
  | boolean true => "true".toList ++ tail
  | boolean false => "false".toList ++ tail
  | int n => Number.write n.toInt ++ tail
  | long n => Number.write n.toInt ++ tail
  | decimal d => d.write ++ tail
  | bigDecimal d => d.write [] ++ tail
  | string s => Text.quotedOnto s.toList tail
  | fragment f => "<fragment ".toList ++ Text.quotedOnto f.text ('>' :: tail)
  | foreign f =>
    '<' :: f.typeName.toList ++ ' ' :: Text.quotedOnto f.display.toList ('>' :: tail)
  | list _ | map _ | call _ _ => tail

mutual

/-- The value on a single line, in front of a tail. -/
def lineOnto : Value → List Char → List Char
  | list items, tail => '[' :: lineItemsOnto items (']' :: tail)
  | map entries, tail => '\x7b' :: lineEntriesOnto entries ('\x7d' :: tail)
  | call f arguments, tail => f.toList ++ '(' :: lineItemsOnto arguments (')' :: tail)
  | v, tail => scalarOnto v tail

def lineItemsOnto : List Value → List Char → List Char
  | [], tail => tail
  | [v], tail => lineOnto v tail
  | v :: rest, tail => lineOnto v (',' :: ' ' :: lineItemsOnto rest tail)

def lineEntriesOnto : Entries Value → List Char → List Char
  | [], tail => tail
  | [(key, v)], tail => Text.quotedOnto key.toList (':' :: lineOnto v tail)
  | (key, v) :: rest, tail =>
    Text.quotedOnto key.toList (':' :: lineOnto v (',' :: ' ' :: lineEntriesOnto rest tail))

end

/-- The spaces in front of a line at a depth of nesting. -/
def indentOnto (depth : Nat) (tail : List Char) : List Char :=
  List.replicate (4 * depth) ' ' ++ tail

mutual

/-- The value with a line for each item and entry. -/
def linesOnto (depth : Nat) : Value → List Char → List Char
  | list items, tail =>
    '[' :: '\n' :: itemLinesOnto (depth + 1) items (indentOnto depth (']' :: tail))
  | map entries, tail =>
    '\x7b' :: '\n' :: entryLinesOnto (depth + 1) entries (indentOnto depth ('\x7d' :: tail))
  | v, tail => lineOnto v tail

def itemLinesOnto (depth : Nat) : List Value → List Char → List Char
  | [], tail => tail
  | v :: rest, tail =>
    indentOnto depth (linesOnto depth v ('\n' :: itemLinesOnto depth rest tail))

def entryLinesOnto (depth : Nat) : Entries Value → List Char → List Char
  | [], tail => tail
  | (key, v) :: rest, tail =>
    indentOnto depth (Text.quotedOnto key.toList
      (':' :: ' ' :: linesOnto depth v ('\n' :: entryLinesOnto depth rest tail)))

end

def line (v : Value) : String :=
  .ofList (lineOnto v [])

def lines (v : Value) : String :=
  .ofList (linesOnto 0 v [])

/-- What a value amounts to within a text: a string its characters, any other value its
single line. -/
def plain : Value → String
  | string s => s
  | v => v.line

end Cjson.Value
