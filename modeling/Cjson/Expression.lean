import Cjson.Listing
import Cjson.Value.Word

namespace Cjson.Eval

variable {σ : Type}

/-- A list in brackets; the cursor is on the opening one. -/
def list (env : Environment σ) (source : Source) (item : Eval σ Value) : Eval σ Value := do
  scan source Scan.advance
  let ((), items) ← within env source .list (← position) fun _ =>
    listBody source item (some ']')
  scan source Scan.advance
  return .list items

/-- A map in brackets, or a fragment of the whole of it if the environment does not let
its entries be evaluated. -/
def map (env : Environment σ) (source : Source) (key item : Eval σ Value) :
    Eval σ Value := do
  let start ← position
  scan source Scan.advance
  let (fragment?, entries) ← within env source .map (← position) fun
    | .proceed => do
      mapBody env source key item (some '\x7d')
      return none
    | _ => inside do
      scan source (Scan.skimListing Scan.skimExpression '\x7d')
      return some (Fragment.ofOffsets source start ((← position) + 1))
  scan source Scan.advance
  return match fragment? with
    | some f => .fragment f
    | none => .map entries

/-- The arguments of a call that began at byte `start`; the cursor is behind the opening
parenthesis. -/
def arguments (env : Environment σ) (source : Source) (function : String) (start : Nat)
    (item : Eval σ Value) : Eval σ (List Value) := do
  let (items, ()) ← within env source (.arguments function) start fun _ => inside do
    let ((), items) ← building [] (listBody source item (some ')'))
    return items
  scan source Scan.advance
  return items

/-- Where an expression stands. In place of a key, words are strings and calls wait for
what follows them; in place of a value, words may be forced to be strings. -/
inductive Role where
  | key
  | value (force : Bool)
  deriving DecidableEq

/-- Whether the words inside lists, maps and arguments are strings. -/
def Role.force : Role → Bool
  | key => false
  | value force => force

/-- Evaluates the expression at the cursor. Each level of brackets takes an element of
`room`. -/
def expression (env : Environment σ) (source : Source) :
    (room : List Char) → Role → Eval σ Value
  | [], _ => throw (.internal "An expression was evaluated past the end of the text.")
  | _ :: room, role => do
    let key := expression env source room .key
    let item := expression env source room (.value role.force)
    let start ← position
    match (← get).cursor.rest with
    | [] => throw (.internal "An expression was evaluated past the end of the text.")
    | '\x7b' :: _ => map env source key item
    | '[' :: _ => list env source item
    | '"' :: _ => .string <$> scan source (Scan.quoted '"')
    | '\'' :: _ => .string <$> scan source (Scan.quoted '\'')
    | 'r' :: '"' :: _ => .string <$> scan source (Scan.raw '"')
    | 'r' :: '\'' :: _ => .string <$> scan source (Scan.raw '\'')
    | _ =>
      let (w, called) ← scan source Scan.wordOrCall
      if called then
        let function := String.ofList w
        let items ← arguments env source function start item
        if role = .key then
          return .call function items
        resolve env source function items start
      else
        return if role = .value false then .ofWord w else .string (.ofList w)

/-- Evaluates the expression at the cursor. Each level of brackets takes a character as
well, so the text itself is room enough. -/
def anyExpression (env : Environment σ) (source : Source) (role : Role) : Eval σ Value :=
  fun s => expression env source s.cursor.rest role s

end Cjson.Eval
