import Cjson.Scan.Gap

namespace Cjson.Scan

/-- What stands behind an item of a listing. -/
inductive Separator where
  /-- A comma, or a line break in place of one. -/
  | comma
  | colon
  | terminator
  /-- The text ends although the listing has to be closed. -/
  | textEnd
  deriving DecidableEq

/-- Skips the separator behind an item, up to the next item or onto the terminator. A
listing without a terminator ends with the text. Where `noColon` gives a reason, a colon
is out of place. -/
def separator (terminator : Option Char) (noColon : Option ColonFault) : Scan Separator := do
  let start ← position
  let lineBreak ← gap
  let here ← position
  match ← peek with
  | none => return if terminator.isNone then .terminator else .textEnd
  | some '+' => fail .plusOperator here
  | some ',' =>
    advance
    let _ ← gap
    return .comma
  | some ':' =>
    match noColon with
    | some why => fail (.colon why) here
    | none =>
      advance
      let _ ← gap
      return .colon
  | some c =>
    if some c = terminator then return .terminator
    else if c = ';' then fail .semicolon here
    else if c = '=' then fail .equalsSign here
    else if lineBreak then return .comma
    else if here = start then fail (.misplaced c) here
    else fail .missingSeparator here

end Cjson.Scan
