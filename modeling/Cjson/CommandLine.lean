import Cjson.CommandLine.Arguments
import Cjson.FunctionTable
import Cjson.Host
import Cjson.Text.Visible
import Cjson.Value.Json

namespace Cjson.CommandLine

inductive Flag where
  | forceStrings
  | json
  | compact
  | quiet
  deriving DecidableEq

inductive Setting where
  | file
  | variable
  | mode
  deriving DecidableEq

/-- The modes in which a value is printed, and `check`, which only tells whether there is
one. -/
inductive Command where
  | print (m : Mode)
  | check
  deriving DecidableEq

def Command.ofName? : String → Option Command
  | "eval" => some (.print .single)
  | "map" => some (.print .map)
  | "list" => some (.print .list)
  | "check" => some .check
  | _ => none

def modeOfName? : String → Option Mode
  | "single" => some .single
  | "map" => some .map
  | "list" => some .list
  | _ => none

def Command.grammar : Command → Grammar Flag Setting
  | print _ =>
    { flags := [(⟨"force-strings", none⟩, .forceStrings), (⟨"json", some 'j'⟩, .json),
        (⟨"compact", some 'c'⟩, .compact)]
      settings := [(⟨"file", some 'f'⟩, .file), (⟨"var", none⟩, .variable)] }
  | check =>
    { flags := [(⟨"force-strings", none⟩, .forceStrings), (⟨"quiet", some 'q'⟩, .quiet)]
      settings := [(⟨"file", some 'f'⟩, .file), (⟨"var", none⟩, .variable),
        (⟨"mode", none⟩, .mode)] }

/-- What is to be evaluated, and what is to be done with the result. -/
structure Request where
  command : Command
  mode : Mode
  expression : Option String
  file : Option String
  /-- The variables, each a name and a value with an equals sign between them. -/
  assignments : List String
  flags : List Flag
  deriving DecidableEq

def Request.has (r : Request) (f : Flag) : Bool :=
  r.flags.contains f

/-- Reads the arguments. Only variables may be given more than once. -/
def parse? : List String → Option Request
  | [] => none
  | name :: arguments => do
    let command ← Command.ofName? name
    let given ← read? command.grammar arguments
    let values (s : Setting) := (given.settings.filter (·.1 = s)).map (·.2)
    guard (given.flags.Nodup ∧ given.operands.length ≤ 1 ∧ (values .file).length ≤ 1 ∧
      (values .mode).length ≤ 1)
    let mode ← match command, (values .mode).head? with
      | .print m, _ => some m
      | .check, some m => modeOfName? m
      | .check, none => some .map
    return ⟨command, mode, given.operands.head?, (values .file).head?, values .variable,
      given.flags⟩

/-- Where a text comes from. -/
inductive Input where
  | text (text : String)
  | file (path : String)
  | stdin
  deriving DecidableEq

def Request.input : Request → Except String Input
  | { expression := some _, file := some _, .. } =>
    .error "Give either an expression or --file, not both"
  | { expression := some text, file := none, .. } => .ok (.text text)
  | { expression := none, file := some path, .. } => .ok (.file path)
  | { expression := none, file := none, .. } => .ok .stdin

/-- Exit code and output of a command. -/
structure Outcome where
  code : Nat
  stdout : String := ""
  stderr : String := ""
  deriving DecidableEq

def usage : String :=
  "Usage: eval|map|list|check [EXPRESSION] [-f|--file FILE] [--force-strings] " ++
    "[--var NAME=VALUE]...\n" ++
    "eval, map, list: [-j|--json] [-c|--compact]\n" ++
    "check: [--mode single|map|list] [-q|--quiet]\n"

/-- The outcome for arguments that make no request. -/
def Outcome.misuse : Outcome :=
  ⟨2, "", usage⟩

def Outcome.failure (message : String) : Outcome :=
  ⟨1, "", message ++ "\n"⟩

/-- Adds a variable, given as a name and a value with an equals sign between them. -/
def addVariable {σ : Type} (t : FunctionTable σ) (text : String) :
    Except String (FunctionTable σ) :=
  match text.toList.dropWhile (· != '=') with
  | [] => .error ("Invalid --var " ++ Text.quoteVisible text ++ ", expected NAME=VALUE")
  | _ :: value =>
    .ok (t.setVariable (.ofList (text.toList.takeWhile (· != '='))) (.string (.ofList value)))

/-- The text of an input, `content` being what its file or the standard input holds. -/
def Input.load (content : Except String (List UInt8)) :
    Input → Except String (List Char × Option String)
  | text t => .ok (t.toList, none)
  | file path =>
    match Document.ofFile (fun _ => content) path with
    | .ok loaded => .ok (loaded, some path)
    | .error e => .error e.message
  | stdin =>
    match content with
    | .error reason => .error ("Error reading from stdin: " ++ reason)
    | .ok bytes =>
      match Document.text none bytes with
      | .ok loaded => .ok (loaded, none)
      | .error e => .error e.message

/-- The value of the input and the name of its file, or what went wrong first: the input,
the variables, the evaluation. -/
def Request.evaluate (r : Request) (content : Except String (List UInt8)) :
    Except String (Value × Option String) := do
  let (text, file) ← (← r.input).load content
  let table ← r.assignments.foldlM addVariable
    { (FunctionTable.standard : FunctionTable Unit) with leavesUnknown := true }
  let host : Host Unit :=
    ⟨table.environment, (), { forceStrings := r.has .forceStrings, file }⟩
  match (host.evaluate r.mode text).1 with
  | .ok v => return (v, file)
  | .error e => throw e.describe

def Request.print (r : Request) (v : Value) : String :=
  if r.has .json then
    if r.has .compact then v.compactJson else v.prettyJson
  else
    if r.has .compact then v.line else v.lines

def Request.run (r : Request) (content : Except String (List UInt8)) : Outcome :=
  match r.evaluate content with
  | .error message => .failure message
  | .ok (v, file) =>
    match r.command with
    | .print _ => ⟨0, r.print v ++ "\n", ""⟩
    | .check => ⟨0, "", if r.has .quiet then "" else file.getD "input" ++ ": OK\n"⟩

end Cjson.CommandLine
