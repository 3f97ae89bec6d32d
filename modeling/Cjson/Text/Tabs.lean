namespace Cjson.Text

/-- Writes spaces for tabs, in a text that begins at `column`, with a stop at every
multiple of `width`. -/
def detab (width : Nat) : (column : Nat) → List Char → List Char
  | _, [] => []
  | column, c :: cs =>
    if c = '\t' then
      let stop := max width 1 * (1 + column / max width 1)
      List.replicate (stop - column) ' ' ++ detab width stop cs
    else
      c :: detab width (column + 1) cs

end Cjson.Text
