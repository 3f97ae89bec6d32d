import Cjson.Scan.Quoted
import Cjson.Scan.Word

namespace Cjson.Scan

/-- Goes on from byte `p` to behind the closing quote. A backslash protects the next
character. -/
def skimQuotedFrom (q : Char) (start : Nat) :
    (p : Nat) → List Char → Except Fault Unit × Cursor
  | p, [] => (.error (.problem (.unclosedString q) start), ⟨p, []⟩)
  | p, '\\' :: c :: rest => skimQuotedFrom q start (p + 1 + c.utf8Size) rest
  | p, c :: rest =>
    if c = q then (.ok (), ⟨p + c.utf8Size, rest⟩)
    else skimQuotedFrom q start (p + c.utf8Size) rest

def skimQuoted (q : Char) : Scan Unit := do
  let start ← position
  advance
  fun k => skimQuotedFrom q start k.position k.rest

/-- Passes over the items of a listing up to its terminator, with `expression` for
whatever is no separator; the cursor is behind the opening bracket. -/
def skimListing (expression : Scan Unit) (terminator : Char) : Scan Unit := do
  let start ← position
  let _ ← gap
  Action.untilDone Cursor.rest (.internal "A listing outlived its text.")
    (fun () => do
      match ← peek with
      | none => fail (.unclosedBracket terminator) (start - 1)
      | some c =>
        if c = terminator then
          return .done ()
        if c = ',' ∨ c = ':' ∨ c = ';' ∨ c = '=' then
          advance
        else
          expression
        let _ ← gap
        return .again ())
    ()

/-- The bracket that closes a skimmed listing. -/
def closing? : Char → Option Char
  | '\x7b' => some '\x7d'
  | '[' => some ']'
  | '<' => some '>'
  | '(' => some ')'
  | _ => none

/-- Passes over an expression. Each level of brackets takes an element of `room`. -/
def skim : (room : List Char) → Scan Unit
  | [] => throw (.internal "An expression was skimmed past the end of the text.")
  | _ :: room => do
    match ← rest with
    | [] => throw (.internal "An expression was skimmed past the end of the text.")
    | 'r' :: '"' :: _ => discard (raw '"')
    | 'r' :: '\'' :: _ => discard (raw '\'')
    | c :: _ =>
      if c = '"' ∨ c = '\'' then
        skimQuoted c
      else
        match closing? c with
        | some terminator =>
          advance
          skimListing (skim room) terminator
          advance
        | none =>
          let (_, called) ← wordOrCall
          if called then
            skimListing (skim room) ')'
            advance

/-- Passes over the expression at the cursor. Each level of brackets takes a character as
well, so the text itself is room enough. -/
def skimExpression : Scan Unit := fun k =>
  skim k.rest k

end Cjson.Scan
