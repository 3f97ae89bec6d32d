import Cjson.Source
import Cjson.Text.Tabs

namespace Cjson

/-- How a source line is quoted. -/
structure Snippet where
  /-- Room for the quoted line. -/
  width : Nat := 56
  /-- Distance of the tab stops. -/
  tab : Nat := 8

namespace Snippet

def ellipsis : List Char := ['.', '.', '.']

/-- Shortens a line that is too long for the room, given in two halves: first the
half after the caret from its end, but to no less than six characters, then the
half before the caret from its start. -/
def fit (width : Nat) (before after : List Char) : List Char × List Char :=
  if before.length + after.length ≤ width then
    (before, after)
  else
    let kept := max (after.length - (before.length + after.length - width)) 6
    let shown := if kept < after.length then after.take (kept - 3) ++ ellipsis else after
    if before.length + shown.length ≤ width then
      (before, shown)
    else
      let skipped := min (before.length + shown.length - width + 3) before.length
      (ellipsis ++ before.drop skipped, shown)

/-- The two halves of the line as they are quoted, the second one starting with the
located character. -/
def halves (s : Snippet) (p : Place) : List Char × List Char :=
  let before := Text.detab s.tab 0 p.before
  fit s.width before (Text.detab s.tab before.length p.after)

/-- The quoted line, and under it a caret that points to the located character. -/
def quoted (s : Snippet) (p : Place) : List Char :=
  if p.before.isEmpty && p.after.isEmpty then
    "(Can't show the line because it is empty.)".toList
  else
    let (before, after) := s.halves p
    before ++ after ++ '\n' :: List.replicate before.length ' ' ++ ['^']

/-- The message, followed by where it applies. -/
def format (s : Snippet) (message : String) (l : Location) : String :=
  let name := l.source.file.getD "the text"
  match l.place? with
  | some p =>
    let file := match l.source.file with
      | some f => " in " ++ f
      | none => ""
    message ++ "\nError location: " ++ p.position.describe ++ file ++ ":\n" ++
      .ofList (s.quoted p)
  | none =>
    if l.offset = Text.size l.source.text then
      message ++ "\nError location: The very end of " ++ name ++ "."
    else
      message ++ "\nError location: ??? (after the end of " ++ name ++ ")"

end Snippet
end Cjson
