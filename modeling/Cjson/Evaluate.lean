import Cjson.Expression

namespace Cjson

namespace Eval

variable {σ : Type} (env : Environment σ) (source : Source) (force : Bool)

/-- Exactly one expression, with gaps around it. -/
def single : Eval σ Value := do
  let _ ← scan source Scan.gap
  if (← scan source Scan.peek).isNone then
    fail source .emptyText (← position)
  let v ← anyExpression env source (.value force)
  let _ ← scan source Scan.gap
  if (← scan source Scan.peek).isSome then
    fail source .extraCharacters (← position)
  return v

/-- A map without its brackets. -/
def openMap : Eval σ (Entries Value) := do
  let ((), entries) ← within env source .map (← position) fun _ =>
    mapBody env source (anyExpression env source .key)
      (anyExpression env source (.value force)) none
  return entries

/-- A list without its brackets. -/
def openList : Eval σ (List Value) := do
  let ((), items) ← within env source .list (← position) fun _ =>
    listBody source (anyExpression env source (.value force)) none
  return items

end Eval

section EntryPoints

variable {σ : Type} (env : Environment σ) (force : Bool)

def evaluate (source : Source) (state : σ) : Except EvaluationError Value × σ :=
  (Eval.single env source force).run (.ofSource source) state

def evaluateMap (source : Source) (state : σ) :
    Except EvaluationError (Entries Value) × σ :=
  (Eval.openMap env source force).run (.ofSource source) state

def evaluateList (source : Source) (state : σ) : Except EvaluationError (List Value) × σ :=
  (Eval.openList env source force).run (.ofSource source) state

/-- A fragment is evaluated as one expression, in the text that it is from. -/
def evaluateFragment (f : Fragment) (state : σ) : Except EvaluationError Value × σ :=
  (Eval.single env f.source force).run (.ofFragment f) state

end EntryPoints

/-- How a text is to be evaluated. -/
inductive Mode where
  | single
  | map
  | list
  deriving DecidableEq

/-- Evaluates a text in a mode, to a value. -/
def Mode.evaluate {σ : Type} (m : Mode) (env : Environment σ) (force : Bool)
    (source : Source) (state : σ) : Except EvaluationError Value × σ :=
  match m with
  | single => Cjson.evaluate env force source state
  | map =>
    let (result, state) := evaluateMap env force source state
    (result.map .map, state)
  | list =>
    let (result, state) := evaluateList env force source state
    (result.map .list, state)

end Cjson
