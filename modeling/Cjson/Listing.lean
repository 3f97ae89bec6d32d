import Cjson.Scan.Separator
import Cjson.Scan.Skim
import Cjson.Session

namespace Cjson.Eval

variable {σ β : Type}

/-- Reads an item or finds the end of the listing, judging by the next character. -/
def itemOrEnd (source : Source) (kind : Listing) (terminator : Option Char) (start : Nat)
    (item : Build β σ Bool) : Build β σ (Turn Unit Unit) := do
  let here ← inside position
  match ← inside (scan source Scan.peek), terminator with
  | none, none => return .done ()
  | none, some t => inside (fail source (.unclosedListing kind t) (start - 1))
  | some c, _ =>
    if some c = terminator then
      return .done ()
    if c = ',' then
      inside (fail source (.missingItem kind) here)
    return if ← item then .done () else .again ()

/-- Reads items up to the terminator, or to the end of the text if there is none. The
cursor is behind the opening bracket at first, and on the terminator at last. An item
includes its separator, and tells whether that was the terminator. -/
def listing (source : Source) (kind : Listing) (terminator : Option Char)
    (item : Build β σ Bool) : Build β σ Unit := do
  let start ← inside position
  let _ ← inside (scan source Scan.gap)
  Action.untilDone (fun (_, s) => s.cursor.rest) (.internal "A listing outlived its text.")
    (fun () => itemOrEnd source kind terminator start item) ()

/-- Skips the separator behind an item where a colon is out of place, and tells whether it
is the terminator. -/
def endsListing (source : Source) (terminator : Option Char) (noColon : ColonFault) :
    Eval σ Bool :=
  return (← scan source (Scan.separator terminator (some noColon))) == .terminator

def listBody (source : Source) (item : Eval σ Value) (terminator : Option Char) :
    Build (List Value) σ Unit :=
  listing source .list terminator do
    let v ← inside item
    edit (· ++ [v])
    inside (endsListing source terminator .inList)

/-- What stands in place of a key: its value, and whether a function gave it. -/
def keyOrCall (env : Environment σ) (source : Source) (key : Eval σ Value) :
    Eval σ (Value × Bool) := do
  let start ← position
  match ← key with
  | .call function arguments => return (← resolve env source function arguments start, true)
  | v => return (v, false)

/-- The key that stands in front of a colon. -/
def keyName (source : Source) (start : Nat) : Value × Bool → Eval σ String
  | (.string key, _) => return key
  | (.call _ _, true) => fail source .unresolvedCall start
  | (v, _) => fail source (.keyNotString v.typeName) start

/-- The value behind a key and its colon, or nothing where the environment skips it. -/
def entryValue (env : Environment σ) (source : Source) (key : String) (start : Nat)
    (item : Eval σ Value) : Eval σ (Option Value) := do
  let (v, ()) ← within env source (.entry key) start fun
    | .proceed => some <$> inside item
    | signal => inside do
      let first ← position
      scan source Scan.skimExpression
      let last ← position
      return if signal = .fragment then
        some (.fragment (.ofOffsets source first last))
      else
        none
  return v

/-- The value of a key that stands alone, which is `true`. -/
def bareEntry (env : Environment σ) (source : Source) (key : String) (start : Nat) :
    Eval σ (Option Value) := do
  let (kept, ()) ← within env source (.entry key) start fun signal =>
    return signal != .skip
  return if kept then some (.boolean true) else none

def putValue (key : String) : Option Value → Build (Entries Value) σ Unit
  | some v => edit (Entries.put key v)
  | none => return

/-- What stands in a map without a colon: a key, or a map whose entries join the others. -/
def loneEntry (env : Environment σ) (source : Source) (start : Nat) :
    Value × Bool → Build (Entries Value) σ Unit
  | (.string key, false) => do putValue key (← inside (bareEntry env source key start))
  | (.map merged, _) => edit (Entries.putAll merged)
  | (.call _ _, true) => inside (fail source .unresolvedCall start)
  | (v, true) => inside (fail source (.callNotMap v.typeName) start)
  | (v, false) => inside (fail source (.neitherKeyNorMap v.typeName) start)

def mapBody (env : Environment σ) (source : Source) (key item : Eval σ Value)
    (terminator : Option Char) : Build (Entries Value) σ Unit :=
  listing source .map terminator do
    let start ← inside position
    let k ← inside (keyOrCall env source key)
    match ← inside (scan source (Scan.separator terminator none)) with
    | .colon => do
      let name ← inside (keyName source start k)
      if (← inside (scan source Scan.peek)).isNone then
        inside (fail source .missingValue start)
      putValue name (← inside (entryValue env source name start item))
      inside (endsListing source terminator .afterValue)
    | separator => do
      loneEntry env source start k
      return separator == .terminator

end Cjson.Eval
