import Cjson.Problem
import Cjson.Value

namespace Cjson

/-- What a notification is about. -/
inductive Scope where
  /-- The value of a map's key. -/
  | entry (key : String)
  | arguments (function : String)
  | list
  | map
  deriving DecidableEq

namespace Scope

/-- The container under construction, which the environment may edit. -/
abbrev Target : Scope → Type
  | .entry _ | .arguments _ => Unit
  | .list => List Value
  | .map => Entries Value

def empty : (s : Scope) → s.Target
  | .entry _ | .arguments _ => ()
  | .list => []
  | .map => []

/-- The key or the function concerned. -/
def name? : Scope → Option String
  | .entry name | .arguments name => some name
  | .list | .map => none

def label : Scope → String
  | .entry _ => "MAP_KEY"
  | .arguments _ => "FUNCTION_PARAMS"
  | .list => "LIST"
  | .map => "MAP"

end Scope

inductive Event where
  | enter (s : Scope)
  | leave (s : Scope)
  deriving DecidableEq

namespace Event

def scope : Event → Scope
  | enter s | leave s => s

def isEnter : Event → Bool
  | enter _ => true
  | leave _ => false

def label : Event → String
  | enter s => "ENTER_" ++ s.label
  | leave s => "LEAVE_" ++ s.label

/-- The events as their labels tell them apart, with empty names. -/
def all : List Event :=
  [.entry "", .arguments "", .list, .map].flatMap fun s => [enter s, leave s]

end Event

/-- Where the evaluation stands when it turns to its environment. -/
structure Context where
  source : Source
  position : Nat
  deriving DecidableEq

def Context.location (c : Context) : Location :=
  ⟨c.source, c.position⟩

/-- The answer to a notification. It counts for the value of a key, and for a map in
brackets, of which any answer but `proceed` makes a fragment. -/
inductive Signal where
  | proceed
  | skip
  | fragment
  deriving DecidableEq

inductive EnvironmentError where
  /-- An evaluation error, which is passed on as it is. -/
  | evaluation (e : EvaluationError)
  | message (text : String)
  deriving DecidableEq

/-- A host with a state of type `σ`, which callbacks change also when they fail. -/
structure Environment (σ : Type) where
  resolve : (function : String) → (arguments : List Value) → Context → σ →
    Except EnvironmentError Value × σ
  notify : (e : Event) → Context → e.scope.Target → σ →
    Except EnvironmentError Signal × e.scope.Target × σ

/-- Leaves calls as they are and never interferes. -/
def Environment.simple {σ : Type} : Environment σ where
  resolve function arguments _ state := (.ok (.call function arguments), state)
  notify _ _ target state := (.ok .proceed, target, state)

end Cjson
