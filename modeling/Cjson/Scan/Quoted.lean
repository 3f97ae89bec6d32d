import Cjson.Scan

namespace Cjson.Scan

/-- What a single character stands for behind a backslash. -/
def escaped? : Char → Option Char
  | '"' => some '"'
  | '\'' => some '\''
  | '\\' => some '\\'
  | '\x7b' => some '\x7b'
  | '/' => some '/'
  | 'n' => some '\n'
  | 'r' => some '\r'
  | 't' => some '\t'
  | 'f' => some '\x0c'
  | 'b' => some '\x08'
  | 'g' => some '>'
  | 'l' => some '<'
  | 'a' => some '&'
  | _ => none

def hexValue? (c : Char) : Option Nat :=
  if '0' ≤ c ∧ c ≤ '9' then some (c.toNat - '0'.toNat)
  else if 'a' ≤ c ∧ c ≤ 'f' then some (c.toNat - 'a'.toNat + 10)
  else if 'A' ≤ c ∧ c ≤ 'F' then some (c.toNat - 'A'.toNat + 10)
  else none

def hexNumber (digits : List Char) : Nat :=
  digits.foldl (fun n c => 16 * n + (hexValue? c).getD 0) 0

/-- Reads the one to four digits of an escape that began at byte `start`. -/
def hexEscape (start : Nat) : Scan Char := do
  let digits ← takeUpTo 4 (hexValue? · |>.isSome)
  if digits.isEmpty then
    fail .missingHexDigits start
  let code := hexNumber digits
  if 0xD800 ≤ code ∧ code ≤ 0xDFFF then
    fail (.surrogateEscape code) start
  return .ofNat code

/-- A blank within a line. -/
def isIndent (c : Char) : Bool :=
  Character.isBlank c && !Character.isLineBreak c

/-- Skips the blanks behind a backslash at byte `start`: one line break with whatever
other blanks there are around it. Without a line break, only the first blank belongs to
the escape. -/
def lineContinuation (start : Nat) : Scan Unit := do
  let first ← get
  let _ ← takeWhile isIndent
  match ← rest with
  | '\r' :: '\n' :: _ =>
    advance
    advance
  | c :: _ =>
    if Character.isLineBreak c then
      advance
    else
      set first.next
      fail .blankEscape start
  | [] =>
    set first.next
    fail .blankEscape start
  let _ ← takeWhile isIndent

/-- A piece of a literal: its closing quote, a line continuation, which stands for
nothing, or a character. -/
inductive Piece where
  | closing
  | nothing
  | char (c : Char)

/-- Reads an escape; the cursor is on its backslash, and `c` is the character behind. -/
def escape (c : Char) : Scan Piece := do
  let start ← position
  advance
  if Character.isBlank c then
    lineContinuation start
    return .nothing
  advance
  match escaped? c with
  | some d => return .char d
  | none =>
    if c = 'x' ∨ c = 'u' then
      return .char (← hexEscape start)
    else
      fail (.invalidEscape c) start

/-- Reads the next piece of the literal that began at byte `start` with quote `q`. -/
def piece (q : Char) (start : Nat) : Scan Piece := do
  match ← rest with
  | [] => fail (.unclosedString q) start
  | '\\' :: [] => fail (.unclosedString q) start
  | '\\' :: c :: _ => escape c
  | c :: _ =>
    advance
    return if c = q then .closing else .char c

/-- Reads a literal with escapes; the cursor is on its opening quote `q`. -/
def quoted (q : Char) : Scan String := do
  let start ← position
  advance
  let read ← Action.untilDone Cursor.rest (.internal "A string outlived its text.")
    (fun (read : List Char) => do
      match ← piece q start with
      | .closing => return .done read
      | .nothing => return .again read
      | .char c => return .again (c :: read))
    []
  return .ofList read.reverse

/-- Reads a literal without escapes; the cursor is on the `r` in front of its quote `q`. -/
def raw (q : Char) : Scan String := do
  let start ← position
  advance
  advance
  let content ← takeWhile (· != q)
  if (← peek).isNone then
    fail (.unclosedString q) start
  advance
  return .ofList content

end Cjson.Scan
