import Cjson.Action
import Cjson.Problem
import Cjson.Fragment

namespace Cjson

/-- A byte offset into a source, and the text from there to where the session ends. -/
structure Cursor where
  position : Nat
  rest : List Char
  deriving DecidableEq

/-- Why a scan stopped: a problem at a byte offset, or a defect of the scan. -/
inductive Fault where
  | problem (p : Problem) (offset : Nat)
  | internal (message : String)
  deriving DecidableEq

/-- A scan that fails leaves the cursor where it stood. -/
abbrev Scan := Action Fault Cursor

namespace Cursor

def ofSource (s : Source) : Cursor :=
  ⟨0, s.text⟩

def ofFragment (f : Fragment) : Cursor :=
  ⟨f.start, f.text⟩

/-- Moves behind the next character. -/
def next : Cursor → Cursor
  | ⟨p, []⟩ => ⟨p, []⟩
  | ⟨p, c :: rest⟩ => ⟨p + c.utf8Size, rest⟩

end Cursor

namespace Scan

def fail {α : Type} (p : Problem) (offset : Nat) : Scan α :=
  throw (.problem p offset)

def position : Scan Nat :=
  return (← get).position

def rest : Scan (List Char) :=
  return (← get).rest

def peek : Scan (Option Char) :=
  return (← get).rest.head?

def advance : Scan Unit :=
  modify Cursor.next

/-- Takes the longest run of characters with `p`. -/
def takeWhile (p : Char → Bool) : Scan (List Char) := fun k =>
  let taken := k.rest.takeWhile p
  (.ok taken, ⟨k.position + Text.size taken, k.rest.dropWhile p⟩)

/-- Takes the longest run of characters with `p`, but at most `n` of them. -/
def takeUpTo (n : Nat) (p : Char → Bool) : Scan (List Char) := fun k =>
  let taken := (k.rest.take n).takeWhile p
  (.ok taken, ⟨k.position + Text.size taken, k.rest.drop taken.length⟩)

end Scan
end Cjson
