import Cjson.Scan

namespace Cjson.Scan

/-- What a reader of a gap is in the middle of. -/
inductive Within where
  | gap
  | lineComment
  | blockComment (opened : Cursor)

/-- Reads a gap on from byte `p`, and tells whether it has a line break, `seen` being
whether there was one before. A line comment ends in front of its line break, which
therefore counts; those inside block comments do not. -/
def gapFrom : Within → (seen : Bool) → (p : Nat) → List Char → Except Fault Bool × Cursor
  | .gap, seen, p, [] => (.ok seen, ⟨p, []⟩)
  | .gap, seen, p, '/' :: '/' :: rest => gapFrom .lineComment seen (p + 2) rest
  | .gap, seen, p, '/' :: '*' :: rest =>
    gapFrom (.blockComment ⟨p, '/' :: '*' :: rest⟩) seen (p + 2) rest
  | .gap, seen, p, c :: rest =>
    if Character.isBlank c then
      gapFrom .gap (seen || Character.isLineBreak c) (p + c.utf8Size) rest
    else
      (.ok seen, ⟨p, c :: rest⟩)
  | .lineComment, seen, p, [] => (.ok seen, ⟨p, []⟩)
  | .lineComment, seen, p, c :: rest =>
    if Character.isLineBreak c then
      gapFrom .gap true (p + c.utf8Size) rest
    else
      gapFrom .lineComment seen (p + c.utf8Size) rest
  | .blockComment opened, _, _, [] =>
    (.error (.problem .unclosedComment opened.position), opened)
  | .blockComment _, seen, p, '*' :: '/' :: rest => gapFrom .gap seen (p + 2) rest
  | .blockComment opened, seen, p, c :: rest =>
    gapFrom (.blockComment opened) seen (p + c.utf8Size) rest

/-- Skips blanks and comments, and tells whether a line break was among them. A comment
that is not closed leaves the cursor in front of it. -/
def gap : Scan Bool := fun k =>
  gapFrom .gap false k.position k.rest

end Cjson.Scan
