import Cjson.Document
import Cjson.Evaluate

namespace Cjson

structure Options where
  /-- Words are strings, even `true`, `null` and numbers. -/
  forceStrings : Bool := false
  /-- The name in messages; texts from files go by their path if it is not given. -/
  file : Option String := none
  /-- Room for a quoted line in messages. -/
  quoteWidth : Nat := 56
  deriving DecidableEq

inductive Failure where
  | document (e : DocumentError)
  | evaluation (e : EvaluationError)
  deriving DecidableEq

/-- An environment with the state it has come to. -/
structure Host (σ : Type) where
  environment : Environment σ
  state : σ
  options : Options := {}

namespace Host

variable {σ : Type}

/-- Evaluates a text that errors call by the name `file`. -/
def evaluateNamed (h : Host σ) (m : Mode) (file : Option String) (text : List Char) :
    Except EvaluationError Value × Host σ :=
  let (result, state) := m.evaluate h.environment h.options.forceStrings ⟨text, file⟩ h.state
  (result, { h with state })

def evaluate (h : Host σ) (m : Mode) (text : List Char) :
    Except EvaluationError Value × Host σ :=
  h.evaluateNamed m h.options.file text

def evaluateFragment (h : Host σ) (f : Fragment) : Except EvaluationError Value × Host σ :=
  let (result, state) := Cjson.evaluateFragment h.environment h.options.forceStrings f h.state
  (result, { h with state })

/-- Evaluates the text of a document that goes by the name `name`. -/
def evaluateDocument (h : Host σ) (m : Mode) (name : Option String)
    (text : Except DocumentError (List Char)) : Except Failure Value × Host σ :=
  match text with
  | .error e => (.error (.document e), h)
  | .ok text =>
    let (result, h) := h.evaluateNamed m (h.options.file <|> name) text
    (result.mapError .evaluation, h)

def evaluateBytes (h : Host σ) (m : Mode) (name : Option String) (bytes : List UInt8) :
    Except Failure Value × Host σ :=
  h.evaluateDocument m name (Document.text name bytes)

def evaluateFile (h : Host σ) (m : Mode) (files : Files) (path : String) :
    Except Failure Value × Host σ :=
  h.evaluateDocument m (some path) (Document.ofFile files path)

/-- An error's message with as much of the source line as the options allow. -/
def describe (h : Host σ) (e : EvaluationError) : String :=
  e.render { width := h.options.quoteWidth }

end Host
end Cjson
