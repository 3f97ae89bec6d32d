import Cjson.Environment
import Cjson.Value.Text

namespace Cjson

/-- What a function is called with. -/
structure Invocation where
  function : String
  arguments : List Value
  /-- The variables and their values. -/
  bindings : Entries Value
  context : Context

/-- A function that may change the environment's state. -/
abbrev Function (σ : Type) := Invocation → σ → Except EnvironmentError Value × σ

/-- What an environment evaluates calls by. -/
structure FunctionTable (σ : Type) where
  functions : Entries (Function σ) := []
  /-- The variables and their values. -/
  bindings : Entries Value := []
  /-- Leaves a call of an unknown function as it is, instead of failing. -/
  leavesUnknown : Bool := false

namespace FunctionTable

variable {σ : Type}

/-- Adds a function; one of the same name gives up its place to it. -/
def addFunction (t : FunctionTable σ) (name : String) (f : Function σ) : FunctionTable σ :=
  { t with functions := Entries.put name f t.functions }

def setVariable (t : FunctionTable σ) (name : String) (v : Value) : FunctionTable σ :=
  { t with bindings := Entries.put name v t.bindings }

/-- Joins what its arguments amount to within a text, without the nulls among them. -/
def concat (i : Invocation) : Value :=
  .string (String.join ((i.arguments.filter (!·.isNull)).map Value.plain))

/-- The variable with the name that is its argument. -/
def variableNamed (i : Invocation) : Except EnvironmentError Value :=
  let call := "CJSON function " ++ i.function ++ "(name) "
  match i.arguments with
  | [.string name] =>
    match i.bindings.lookup name with
    | none | some .null =>
      .error (.message
        ("The custom variable \"" ++ name ++ "\" is not set (or was set to null)."))
    | some v => .ok v
  | [v] =>
    .error (.message
      (call ++ "argument should be a string, but was a(n) " ++ v.typeName ++ "."))
  | arguments =>
    .error (.message
      (call ++ "should have 1 arguments, but had " ++ toString arguments.length ++ "."))

/-- The functions `concat` and `getCustomVariable`. -/
def standard : FunctionTable σ :=
  (({} : FunctionTable σ).addFunction "concat" fun i state => (.ok (concat i), state)).addFunction
    "getCustomVariable" fun i state => (variableNamed i, state)

def unknownFunction (t : FunctionTable σ) (name : String) : EnvironmentError :=
  .message ("Unknown CJSON function: " ++ name ++ "\nSupported functions are: " ++
    ", ".intercalate ((Entries.keys t.functions).mergeSort (fun a b => a ≤ b)))

def resolve (t : FunctionTable σ) (function : String) (arguments : List Value) (c : Context)
    (state : σ) : Except EnvironmentError Value × σ :=
  match t.functions.lookup function with
  | some f => f ⟨function, arguments, t.bindings, c⟩ state
  | none =>
    if t.leavesUnknown then
      (.ok (.call function arguments), state)
    else
      (.error (t.unknownFunction function), state)

/-- Resolves calls by the table, and never interferes otherwise. -/
def environment (t : FunctionTable σ) : Environment σ :=
  { Environment.simple with resolve := t.resolve }

end FunctionTable
end Cjson
