import Cjson.Proofs.Slice
import Cjson.Number.Numeral
import Cjson.Scan.Skim

namespace Cjson

namespace Bytewise

/-- Why a scan over bytes stops. -/
inductive Failure where
  | fault (f : Fault)
  /-- There is no such slice or no such difference, or a loop goes on where nothing is left. -/
  | panic

end Bytewise

/-- A scan over bytes: its state is an offset, and what it reads is cut out of the text
between two offsets. -/
abbrev Bytewise := Action Bytewise.Failure Nat

namespace Bytewise

def fail {α : Type} (p : Problem) (offset : Nat) : Bytewise α :=
  throw (.fault (.problem p offset))

def position : Bytewise Nat :=
  get

def moveTo (offset : Nat) : Bytewise Unit :=
  set offset

/-- Moves on by `n` bytes. -/
def move (n : Nat) : Bytewise Unit :=
  modify (· + n)

def minus (a b : Nat) : Bytewise Nat :=
  if b ≤ a then return a - b else throw .panic

section Scans

variable (e : Extent)

def slice (first last : Nat) : Bytewise (List Char) :=
  match Text.slice? e.text first last with
  | some s => return s
  | none => throw .panic

def peek : Bytewise (Option Char) :=
  return e.charAt? (← position)

/-- Takes steps until one is the last, of which there are at most as many as characters are
left, and another one. -/
def untilDone {β γ : Type} (step : β → Bytewise (Turn β γ)) (b : β) : Bytewise γ :=
  Action.untilDone (fun offset => (e.rest? offset).getD []) .panic step b

/-- Moves behind the character `c`, to go on with `b`. -/
def again {β γ : Type} (c : Char) (b : β) : Bytewise (Turn β γ) := do
  move c.utf8Size
  return .again b

/-- Moves behind the characters that have `p`, each with its offset. -/
def moveWhile (p : Nat → Char → Bool) : Bytewise Unit :=
  untilDone e (fun () => do
    let here ← position
    match ← peek e with
    | none => return .done ()
    | some c => if p here c then again c () else return .done ()) ()

/-- Skips a comment up to the end of its line. -/
def lineComment (seen : Bool) : Bytewise (Turn Bool Bool) := do
  move 2
  moveWhile e fun _ c => !Character.isLineBreak c
  match ← peek e with
  | none => return .done seen
  | some _ => return .again true

/-- Skips a comment up to the end that is found for it. -/
def blockComment (seen : Bool) : Bytewise (Turn Bool Bool) := do
  let here ← position
  match Text.find? ['*', '/'] (← slice e (here + 2) e.stop) with
  | some n =>
    move (2 + n + 2)
    return .again seen
  | none => fail .unclosedComment here

/-- Skips a comment, if the character behind the slash begins one. -/
def comment (seen : Bool) : Option Char → Bytewise (Turn Bool Bool)
  | some '/' => lineComment e seen
  | some '*' => blockComment e seen
  | _ => return .done seen

/-- Skips a blank or a comment, if there is one. -/
def gapTurn (seen : Bool) : Bytewise (Turn Bool Bool) := do
  let here ← position
  match ← peek e with
  | none => return .done seen
  | some c =>
    if Character.isBlank c then
      again c (seen || Character.isLineBreak c)
    else if c ≠ '/' then
      return .done seen
    else
      comment e seen (e.charAt? (here + 1))

def gap : Bytewise Bool :=
  untilDone e (gapTurn e) false

/-- Moves behind a word, and gives the offsets where it begins and ends. -/
def word : Bytewise (Nat × Nat) := do
  let first ← position
  moveWhile e fun here c => Character.isWordChar c || (here == first && c == '+')
  let last ← position
  if last = first then
    fail .unexpectedCharacter first
  else
    return (first, last)

def wordOrCall : Bytewise (List Char × Bool) := do
  let (first, last) ← word e
  let _ ← gap e
  if (← peek e) = some '(' then
    let name ← slice e first last
    move 1
    return (name, true)
  else
    moveTo last
    let w ← slice e first last
    return (w, false)

def hexTurn (first code : Nat) : Bytewise (Turn Nat Nat) := do
  if (← minus (← position) first) < 4 then
    match (← peek e).bind Scan.hexValue? with
    | some digit =>
      move 1
      return .again (16 * code + digit)
    | none => return .done code
  else
    return .done code

/-- Reads the digits of the escape that began at byte `start`. -/
def hexEscape (start : Nat) : Bytewise Char := do
  let first ← position
  let code ← untilDone e (hexTurn e first) 0
  if (← position) = first then
    fail .missingHexDigits start
  else if 0xD800 ≤ code ∧ code ≤ 0xDFFF then
    fail (.surrogateEscape code) start
  else
    return .ofNat code

/-- Looks behind the blank `c` at byte `offset`, unless that is a second line break. What is
told is whether there was a line break, and where the blanks end. -/
def continuationTurn : Bool × Char × Nat → Bytewise (Turn (Bool × Char × Nat) (Bool × Nat))
  | (found, c, offset) =>
    if found ∧ Character.isLineBreak c then
      return .done (found, offset)
    else
      let found := found || Character.isLineBreak c
      let pair := if c = '\r' ∧ e.charAt? (offset + 1) = some '\n' then 1 else 0
      let offset := offset + pair + c.utf8Size
      match e.charAt? offset with
      | some c =>
        if Character.isBlank c then return .again (found, c, offset)
        else return .done (found, offset)
      | none => return .done (found, offset)

/-- Skips the blanks behind the backslash at byte `start`, the first of which is `c`. -/
def lineContinuation (c : Char) (start : Nat) : Bytewise Unit := do
  match ← untilDone e (continuationTurn e) (false, c, start + 1) with
  | (true, offset) => moveTo offset
  | (false, _) => fail .blankEscape start

/-- Reads the rest of the escape at byte `start`, behind its character `c`. The escape may
stand for nothing. -/
def unescape (c : Char) (start : Nat) : Bytewise (List Char) := do
  match Scan.escaped? c with
  | some d => return [d]
  | none =>
    if c = 'x' ∨ c = 'u' then
      return [← hexEscape e start]
    else if Character.isBlank c then
      lineContinuation e c start
      return []
    else
      fail (.invalidEscape c) start

/-- Reads the escape at byte `start` of the literal that began at byte `opening`. -/
def escape (q : Char) (opening start : Nat) : Bytewise (List Char) := do
  match e.charAt? (start + 1) with
  | none => fail (.unclosedString q) opening
  | some c =>
    moveTo (start + 1 + c.utf8Size)
    unescape e c start

/-- Reads a character or an escape of a literal with quote `q`. What was read is all in
`read`, but for the characters without escapes from byte `chunk` on. -/
def quotedTurn (q : Char) (opening : Nat) :
    List Char × Nat → Bytewise (Turn (List Char × Nat) (List Char))
  | (read, chunk) => do
    let here ← position
    match ← peek e with
    | none => fail (.unclosedString q) opening
    | some c =>
      if c = q then
        let s ← slice e chunk here
        move c.utf8Size
        return .done (read ++ s)
      else if c ≠ '\\' then
        again c (read, chunk)
      else
        let s ← slice e chunk here
        let cs ← escape e q opening here
        return .again (read ++ s ++ cs, ← position)

def quoted (q : Char) : Bytewise String := do
  let opening ← position
  move q.utf8Size
  let read ← untilDone e (quotedTurn e q opening) ([], ← position)
  return .ofList read

def raw (q : Char) : Bytewise String := do
  let opening ← position
  let first := opening + 1 + q.utf8Size
  match Text.find? [q] (← slice e first e.stop) with
  | some n =>
    moveTo (first + n + q.utf8Size)
    return .ofList (← slice e first (first + n))
  | none =>
    moveTo e.stop
    fail (.unclosedString q) opening

def separator (terminator : Option Char) (noColon : Option ColonFault) :
    Bytewise Scan.Separator := do
  let start ← position
  let lineBreak ← gap e
  let here ← position
  match ← peek e with
  | none => return if terminator.isNone then .terminator else .textEnd
  | some '+' => fail .plusOperator here
  | some ',' =>
    move 1
    let _ ← gap e
    return .comma
  | some ':' =>
    match noColon with
    | some why => fail (.colon why) here
    | none =>
      move 1
      let _ ← gap e
      return .colon
  | some c =>
    if some c = terminator then return .terminator
    else if c = ';' then fail .semicolon here
    else if c = '=' then fail .equalsSign here
    else if lineBreak then return .comma
    else if here = start then fail (.misplaced c) here
    else fail .missingSeparator here

/-- Passes the character behind a backslash, if there is one. -/
def skimEscaped : Bytewise (Turn Unit Unit) := do
  match ← peek e with
  | some c => again c ()
  | none => return .again ()

/-- Passes a character, with the one behind it if it is a backslash, of the literal with quote
`q` that began at byte `opening`. -/
def skimQuotedTurn (q : Char) (opening : Nat) : Bytewise (Turn Unit Unit) := do
  match ← peek e with
  | none => fail (.unclosedString q) opening
  | some c =>
    move c.utf8Size
    if c = '\\' then skimEscaped e
    else return if c = q then .done () else .again ()

def skimQuoted (q : Char) : Bytewise Unit := do
  let opening ← position
  move 1
  untilDone e (fun () => skimQuotedTurn e q opening) ()

/-- Passes over one item of the listing whose bracket is at byte `opening`, or one mark. -/
def skimTurn (expression : Bytewise Unit) (terminator : Char) (opening : Nat) :
    Bytewise (Turn Unit Unit) := do
  match ← peek e with
  | none => fail (.unclosedBracket terminator) opening
  | some c =>
    if c = terminator then
      return .done ()
    else
      if c = ',' ∨ c = ':' ∨ c = ';' ∨ c = '=' then move 1 else expression
      let _ ← gap e
      return if (← peek e) = some terminator then .done () else .again ()

def skimListing (expression : Bytewise Unit) (terminator : Char) : Bytewise Unit := do
  let opening ← minus (← position) 1
  let _ ← gap e
  untilDone e (fun () => skimTurn e expression terminator opening) ()

/-- Passes over a word, and over the arguments behind it if it is called. -/
def skimWord (expression : Bytewise Unit) : Bytewise Unit := do
  let (_, last) ← word e
  let _ ← gap e
  if (← peek e) = some '(' then
    move 1
    skimListing e expression ')'
    move 1
  else
    moveTo last

/-- The quote of a raw literal, by its first two characters. -/
def rawQuote? : Char → Option Char → Option Char
  | 'r', some '"' => some '"'
  | 'r', some '\'' => some '\''
  | _, _ => none

/-- Passes over an expression, with an element of `room` for each level of brackets. -/
def skim : (room : List Char) → Bytewise Unit
  | [] => throw .panic
  | _ :: room => do
    let here ← position
    match ← peek e with
    | none => throw (.fault (.internal "An expression was skimmed past the end of the text."))
    | some c =>
      match Scan.closing? c with
      | some terminator =>
        move 1
        skimListing e (skim room) terminator
        move 1
      | none =>
        if c = '"' ∨ c = '\'' then
          skimQuoted e c
        else
          match rawQuote? c (e.charAt? (here + 1)) with
          | some q => discard (raw e q)
          | none => skimWord e (skim room)

def skimExpression : Bytewise Unit := fun offset =>
  skim e ((e.rest? offset).getD []) offset

/-- Passes over the inside of a map by going back to its bracket, passing over the whole,
whose length is taken, and going back in front of the bracket that closes it. -/
def skimMap : Bytewise Unit := do
  let opening ← minus (← position) 1
  moveTo opening
  skimExpression e
  let last ← position
  let _ ← minus last opening
  moveTo (← minus last 1)

end Scans

section Numerals

/-- Takes a sign off, which is one byte; tells whether it is a minus. -/
def sign (s : List Char) : Bytewise (Bool × List Char) :=
  match s with
  | '-' :: _ => return (true, ← slice (.whole s) 1 (Text.size s))
  | '+' :: _ => return (false, ← slice (.whole s) 1 (Text.size s))
  | _ => return (false, s)

/-- The text before the first character with `p`, which is one byte, and the text after it if
there is one. -/
def splitFirst (p : Char → Bool) (s : List Char) : Bytewise (List Char × Option (List Char)) :=
  match Text.findWhere? p s with
  | some n => do
    let before ← slice (.whole s) 0 n
    let behind ← slice (.whole s) (n + 1) (Text.size s)
    return (before, some behind)
  | none => return (s, none)

/-- Reads a number out of its own text, wherever the scan stands. -/
def numeral (s : List Char) : Bytewise (Option Numeral) := do
  let (negative, unsigned) ← sign s
  let (digits, exponent) ← splitFirst (fun c => c == 'e' || c == 'E') unsigned
  let (whole, fraction) := Numeral.splitFirst (· == '.') digits
  let fraction := fraction.getD []
  return do
    let exponent ← Numeral.readExponent? exponent
    guard (!(whole.isEmpty && fraction.isEmpty) && whole.all Char.isDigit &&
      fraction.all Char.isDigit)
    return ⟨negative, whole, fraction, exponent⟩

end Numerals
end Bytewise
end Cjson
