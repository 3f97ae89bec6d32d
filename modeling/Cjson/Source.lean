import Cjson.Character
import Cjson.Text.Bytes

namespace Cjson

/-- A text and the name of the file it came from. -/
structure Source where
  text : List Char
  file : Option String
  deriving DecidableEq

/-- Line and column, both counted from 1. -/
structure Position where
  line : Nat
  column : Nat
  deriving DecidableEq

def Position.describe (p : Position) : String :=
  s!"line {p.line}, column {p.column}"

/-- A character's place: the lines above its line, and its line without the line
break, split in front of the character. The character of a line break stands at
the end of its line. -/
structure Place where
  above : Nat
  before : List Char
  after : List Char
  deriving DecidableEq

def Place.position (p : Place) : Position :=
  ⟨p.above + 1, p.before.length + 1⟩

/-- Finds the character that holds byte `n` of a text whose first line goes on from
`before`, the last character of it first. A CR-LF pair is one line break. -/
def Place.find (above : Nat) (before : List Char) (n : Nat) : List Char → Option Place
  | [] => none
  | '\r' :: '\n' :: rest =>
    if n < 2 then some ⟨above, before.reverse, []⟩ else Place.find (above + 1) [] (n - 2) rest
  | c :: rest =>
    if Character.isLineBreak c then
      if n < c.utf8Size then some ⟨above, before.reverse, []⟩
      else Place.find (above + 1) [] (n - c.utf8Size) rest
    else if n < c.utf8Size then
      some ⟨above, before.reverse, c :: rest.takeWhile (!Character.isLineBreak ·)⟩
    else
      Place.find above (c :: before) (n - c.utf8Size) rest

/-- A byte offset into a source. -/
structure Location where
  source : Source
  offset : Nat
  deriving DecidableEq

/-- There is no place at the end of the text or after it. -/
def Location.place? (l : Location) : Option Place :=
  Place.find 0 [] l.offset l.source.text

def Location.position? (l : Location) : Option Position :=
  l.place?.map Place.position

end Cjson
