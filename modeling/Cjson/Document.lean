import Cjson.Character
import Cjson.Charset

namespace Cjson

inductive DocumentError where
  | unreadable (path : String) (reason : String)
  | unsupportedCharset (label : String) (document : Option String)
  deriving DecidableEq

def DocumentError.message : DocumentError → String
  | unreadable path reason => "Failed to read " ++ path ++ ": " ++ reason
  | unsupportedCharset label document =>
    "Unsupported character encoding, \"" ++ label ++ "\" was specifed in " ++
      match document with
      | some name => "this CJSON file: " ++ name
      | none => "the CJSON file."

/-- The content of a file, or why it can't be read. -/
abbrev Files := String → Except String (List UInt8)

namespace Document

def byteOrderMark : List UInt8 :=
  [0xEF, 0xBB, 0xBF]

def isLineBreakByte (b : UInt8) : Bool :=
  b == 0x0A || b == 0x0D

/-- The blanks that a single byte stands for. -/
def isBlankByte (b : UInt8) : Bool :=
  (0x09 ≤ b && b ≤ 0x0D) || (0x1C ≤ b && b ≤ 0x20)

/-- A blank within a line. -/
def isIndentByte (b : UInt8) : Bool :=
  isBlankByte b && !isLineBreakByte b

def isLetterByte (b : UInt8) : Bool :=
  (0x41 ≤ b && b ≤ 0x5A) || (0x61 ≤ b && b ≤ 0x7A)

def dropByteOrderMark (bytes : List UInt8) : List UInt8 :=
  if byteOrderMark.isPrefixOf bytes then bytes.drop 3 else bytes

def trim (s : List Char) : List Char :=
  ((s.dropWhile Character.isWhiteSpace).reverse.dropWhile Character.isWhiteSpace).reverse

/-- Whether the letters are a keyword of the header, in whatever case they are. -/
def isKeyword (letters : List UInt8) : Bool :=
  let word := letters.map fun b => (Charset.latin1Char b).toLower
  word == "encoding".toList || word == "charset".toList

/-- The name behind the colon of a header, up to the end of the line. -/
def charsetName? (bytes : List UInt8) : Option String :=
  let line := (bytes.dropWhile isIndentByte).takeWhile (!isLineBreakByte ·)
  let name := trim (line.map Charset.latin1Char)
  if name.isEmpty then none else some (.ofList name)

/-- The charset that the header names, which is a comment of the form
`// encoding: name` or `// charset: name` with nothing but blanks before it. -/
def header? (bytes : List UInt8) : Option String :=
  match (dropByteOrderMark bytes).dropWhile isBlankByte with
  | 0x2F :: 0x2F :: rest =>
    let rest := rest.dropWhile isIndentByte
    if isKeyword (rest.takeWhile isLetterByte) then
      match (rest.dropWhile isLetterByte).dropWhile isIndentByte with
      | 0x3A :: rest => charsetName? rest
      | _ => none
    else
      none
  | _ => none

/-- The text of a document, called `name` in errors. A byte order mark is kept: it is a
blank. -/
def text (name : Option String) (bytes : List UInt8) : Except DocumentError (List Char) :=
  match header? bytes with
  | none => .ok (Charset.utf8.decode bytes)
  | some label =>
    match Charset.ofLabel? label with
    | some charset => .ok (charset.decode bytes)
    | none => .error (.unsupportedCharset label name)

def ofFile (files : Files) (path : String) : Except DocumentError (List Char) :=
  match files path with
  | .ok bytes => text (some path) bytes
  | .error reason => .error (.unreadable path reason)

end Document
end Cjson
