namespace Cjson.CommandLine

/-- The names of an option. -/
structure Name where
  long : String
  short : Option Char := none

/-- The options that a command knows: flags of type `φ`, and settings of type `κ`, which
take a value. -/
structure Grammar (φ κ : Type) where
  flags : List (Name × φ)
  settings : List (Name × κ)

/-- What the arguments give, in their order. -/
structure Given (φ κ : Type) where
  flags : List φ := []
  settings : List (κ × String) := []
  operands : List String := []

variable {φ κ α : Type}

def findLong (options : List (Name × α)) (long : String) : Option α :=
  (options.find? (·.1.long == long)).map (·.2)

def findShort (options : List (Name × α)) (short : Char) : Option α :=
  (options.find? (·.1.short == some short)).map (·.2)

namespace Given

def addFlags (fs : List φ) (g : Given φ κ) : Given φ κ :=
  { g with flags := fs ++ g.flags }

def addSetting (k : κ) (value : String) (g : Given φ κ) : Given φ κ :=
  { g with settings := (k, value) :: g.settings }

def addOperand (operand : String) (g : Given φ κ) : Given φ κ :=
  { g with operands := operand :: g.operands }

end Given

/-- Whether an argument can be an operand or a value. A lone hyphen can. -/
def isOperand (argument : String) : Bool :=
  argument == "-" || argument.toList.head? != some '-'

/-- The options of an argument: flags, and at most one setting after them, which may have
its value in the same argument. -/
abbrev Options (φ κ : Type) := List φ × Option (κ × Option String)

/-- Reads the letters of an argument in short form. What follows the letter of a setting
is its value, if there is anything; an equals sign may stand between them. -/
def shortOptions? (g : Grammar φ κ) : List Char → Option (Options φ κ)
  | [] => some ([], none)
  | c :: rest =>
    match findShort g.flags c, findShort g.settings c with
    | some f, _ => (shortOptions? g rest).map fun (fs, setting) => (f :: fs, setting)
    | none, some k =>
      match rest with
      | [] => some ([], some (k, none))
      | '=' :: value => some ([], some (k, some (.ofList value)))
      | value => some ([], some (k, some (.ofList value)))
    | none, none => none

/-- Reads an argument in long form, without its hyphens. Only a setting can have a value
behind an equals sign. -/
def longOption? (g : Grammar φ κ) (argument : List Char) : Option (Options φ κ) :=
  let name := String.ofList (argument.takeWhile (· != '='))
  let value := (argument.dropWhile (· != '=')).tail?.map String.ofList
  match findLong g.flags name, value, findLong g.settings name with
  | some f, none, _ => some ([f], none)
  | _, value, some k => some ([], some (k, value))
  | _, _, none => none

/-- The options of an argument that begins with a hyphen. -/
def options? (g : Grammar φ κ) : List Char → Option (Options φ κ)
  | '-' :: '-' :: long => longOption? g long
  | '-' :: short => shortOptions? g short
  | _ => none

/-- Reads arguments. Two hyphens alone end the options; a setting without a value in its
own argument takes the next one, unless that looks like an option. -/
def read? (g : Grammar φ κ) : List String → Option (Given φ κ)
  | [] => some {}
  | argument :: rest =>
    if argument = "--" then
      some { operands := rest }
    else if isOperand argument then
      (read? g rest).map (·.addOperand argument)
    else
      match options? g argument.toList with
      | none => none
      | some (fs, none) => (read? g rest).map (·.addFlags fs)
      | some (fs, some (k, some value)) =>
        (read? g rest).map fun given => (given.addSetting k value).addFlags fs
      | some (fs, some (k, none)) =>
        match rest with
        | [] => none
        | value :: rest =>
          if isOperand value then
            (read? g rest).map fun given => (given.addSetting k value).addFlags fs
          else
            none

end Cjson.CommandLine
