import Cjson.Environment
import Cjson.Scan

namespace Cjson

/-- What a session changes: where it stands in its text, and the environment's state. -/
structure Session (σ : Type) where
  cursor : Cursor
  state : σ

abbrev Eval (σ : Type) := Action EvaluationError (Session σ)

/-- An evaluation inside a container, which environments see while it is built. -/
abbrev Build (β σ : Type) := Action EvaluationError (β × Session σ)

namespace Eval

variable {σ α β : Type}

def position : Eval σ Nat :=
  return (← get).cursor.position

def fail (source : Source) (p : Problem) (offset : Nat) : Eval σ α :=
  throw (.located p ⟨source, offset⟩)

def scan (source : Source) (x : Scan α) : Eval σ α := fun s =>
  match x s.cursor with
  | (.ok a, cursor) => (.ok a, { s with cursor })
  | (.error (.problem p offset), cursor) =>
    (.error (.located p ⟨source, offset⟩), { s with cursor })
  | (.error (.internal message), cursor) => (.error (.internal message), { s with cursor })

/-- Evaluates something of its own in the middle of a container. -/
def inside (x : Eval σ α) : Build β σ α := fun (b, s) =>
  let (result, s) := x s
  (result, b, s)

/-- Builds a container out of the sight of the environment. -/
def building (b : β) (x : Build β σ α) : Eval σ (α × β) := fun s =>
  match x (b, s) with
  | (.ok a, b, s) => (.ok (a, b), s)
  | (.error e, _, s) => (.error e, s)

/-- Changes the container. -/
def edit (f : β → β) : Build β σ Unit :=
  modify fun (b, s) => (f b, s)

/-- What a failed notification amounts to, if it is blamed on byte `offset`. -/
def notificationError (source : Source) (offset : Nat) : EnvironmentError → EvaluationError
  | .evaluation e => e
  | .message text => .located (.notificationFailed text) ⟨source, offset⟩

/-- What a failed call of a function that began at byte `start` amounts to. -/
def callError (source : Source) (function : String) (start : Nat) :
    EnvironmentError → EvaluationError
  | .evaluation e => e
  | .message text => .located (.callFailed function text) ⟨source, start⟩

/-- Asks the environment for the value of a call that began at byte `start`. -/
def resolve (env : Environment σ) (source : Source) (function : String)
    (arguments : List Value) (start : Nat) : Eval σ Value := fun s =>
  let (result, state) := env.resolve function arguments ⟨source, s.cursor.position⟩ s.state
  (result.mapError (callError source function start), { s with state })

/-- Evaluates `body` between the two notifications of a scope, the first of which is
blamed on byte `start`. Once the scope is entered it is left in any case, at the cursor
where the body ended; the body's failure comes before one of the last notification. -/
def within (env : Environment σ) (source : Source) (scope : Scope) (start : Nat)
    (body : Signal → Build scope.Target σ α) : Eval σ (α × scope.Target) := fun s =>
  match env.notify (.enter scope) ⟨source, s.cursor.position⟩ scope.empty s.state with
  | (.error e, _, state) => (.error (notificationError source start e), { s with state })
  | (.ok signal, target, state) =>
    let (result, target, s) := body signal (target, { s with state })
    let (left, target, state) :=
      env.notify (.leave scope) ⟨source, s.cursor.position⟩ target s.state
    match result, left with
    | .error e, _ => (.error e, { s with state })
    | .ok _, .error e =>
      (.error (notificationError source s.cursor.position e), { s with state })
    | .ok a, .ok _ => (.ok (a, target), { s with state })

/-- Runs a session from a cursor on, with the environment's state before and after it. -/
def run (x : Eval σ α) (cursor : Cursor) (state : σ) : Except EvaluationError α × σ :=
  let (result, s) := x ⟨cursor, state⟩
  (result, s.state)

end Eval
end Cjson
