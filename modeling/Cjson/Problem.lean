import Cjson.Snippet
import Cjson.Text.Quoted

namespace Cjson

inductive ErrorKind where
  /-- Misplaced characters, brackets, quotes, escapes or separators. -/
  | syntactic
  /-- A well-formed text without a meaning. -/
  | semantic
  /-- A failure that the environment reported. -/
  | environment
  deriving DecidableEq

/-- The two kinds of listing. -/
inductive Listing where
  | list
  | map
  deriving DecidableEq

/-- Why a colon can be wrong after an item. -/
inductive ColonFault where
  | inList
  | afterValue
  deriving DecidableEq

/-- What can be wrong with a text or its evaluation. The wording is in `Problem.message`
alone. -/
inductive Problem where
  | emptyText
  | extraCharacters
  | unclosedComment
  | unexpectedCharacter
  | unclosedString (quote : Char)
  | invalidEscape (c : Char)
  | missingHexDigits
  | surrogateEscape (code : Nat)
  | blankEscape
  | unclosedListing (l : Listing) (terminator : Char)
  | unclosedBracket (terminator : Char)
  | missingItem (l : Listing)
  | missingValue
  | plusOperator
  | colon (why : ColonFault)
  | semicolon
  | equalsSign
  | misplaced (c : Char)
  | missingSeparator
  | keyNotString (typeName : String)
  | unresolvedCall
  | callNotMap (typeName : String)
  | neitherKeyNorMap (typeName : String)
  | callFailed (function : String) (reason : String)
  | notificationFailed (reason : String)
  /-- An error that a host raises itself, with what caused it if that is known. -/
  | raised (kind : ErrorKind) (message : String) (cause : Option String)
  deriving DecidableEq

namespace Problem

def kind : Problem → ErrorKind
  | keyNotString _ | unresolvedCall | callNotMap _ | neitherKeyNorMap _ | callFailed _ _ =>
    .semantic
  | notificationFailed _ => .environment
  | raised kind _ _ => kind
  | _ => .syntactic

/-- What the environment said, if it failed. -/
def cause? : Problem → Option String
  | callFailed _ reason | notificationFailed reason => some reason
  | raised _ _ cause => cause
  | _ => none

/-- At least four hexadecimal digits in upper case. -/
def codePoint (n : Nat) : String :=
  .ofList (((Nat.toDigits 16 n).map Char.toUpper).leftpad 4 '0')

def message : Problem → String
  | emptyText => "The text is empty."
  | extraCharacters => "Extra character(s) after the expression."
  | unclosedComment => "Comment was not closed with \"*/\"."
  | unexpectedCharacter => "Unexpected character."
  | unclosedString q => "The closing " ++ Text.shown q ++ " of the string is missing."
  | invalidEscape c =>
    "Invalid escape sequence \\" ++ String.singleton c ++ " in the string literal."
  | missingHexDigits => "Invalid hexadecimal UNICODE escape in the string literal."
  | surrogateEscape code =>
    "Invalid hexadecimal UNICODE escape in the string literal. U+" ++ codePoint code ++
      " is a surrogate code point, which can't stand alone."
  | blankEscape =>
    "Invalid usage of escape sequence \\white-space. This escape sequence can be used only " ++
      "before line-break."
  | unclosedListing .list t =>
    "Reached the end of the text, but the list was not closed with " ++ Text.shown t ++ "."
  | unclosedListing .map t =>
    "Reached the end of the text, but the map was not closed with " ++ Text.shown t ++ "."
  | unclosedBracket t =>
    "Reached the end of the text, but the closing " ++ Text.shown t ++ " is missing."
  | missingItem .list => "List item is missing before the comma."
  | missingItem .map => "Key-value pair is missing before the comma."
  | missingValue => "The key must be followed by a value because colon was used."
  | plusOperator =>
    "The + operator is not supported. (Hint: if you want to break a string into multiple " ++
      "lines, use a quoted string literal, finish the line with \\, then just continue the " ++
      "literal in the next line with optional indentation."
  | colon .inList => "Colon (:) shouldn't be used here. This is a list, and not a map."
  | colon .afterValue =>
    "Colon (:) shouldn't be used here. Colon is for separating the key from the value, and " ++
      "the value was already given previously."
  | semicolon =>
    "Semicolon (;) was unexpected here. If you want to separate items in a listing then use " ++
      "comma (,) instead."
  | equalsSign =>
    "Equals sign (=) was unexpected here. If you want to associate a key with a value then " ++
      "use colon (:) instead."
  | misplaced c => "Character " ++ Text.shown c ++ " shouldn't occur here."
  | missingSeparator =>
    "No separator was used before the item. Items in listings should be separated with comma " ++
      "(,) or line-break. Keys and values in maps should be separated with colon (:)."
  | keyNotString t => "The key must be a String, but it is a(n) " ++ t ++ "."
  | unresolvedCall =>
    "You can't use the function here, because it can't be evaluated in this context."
  | callNotMap t =>
    "Function doesn't evaluate to a map, but to " ++ t ++
      ", so it can't be merged into the map."
  | neitherKeyNorMap t =>
    "This expression should be either a string or a map, but it is a(n) " ++ t ++ "."
  | callFailed f reason => "Failed to evaluate function " ++ Text.quoted f ++ ": " ++ reason
  | notificationFailed reason => reason
  | raised _ message _ => message

end Problem

inductive EvaluationError where
  | located (problem : Problem) (location : Location)
  /-- A defect of the evaluation itself, or one that the environment claims. -/
  | internal (message : String)
  deriving DecidableEq

namespace EvaluationError

/-- An internal error has no kind. -/
def kind? : EvaluationError → Option ErrorKind
  | located problem _ => some problem.kind
  | internal _ => none

def message : EvaluationError → String
  | located problem _ => problem.message
  | internal message => message

def cause? : EvaluationError → Option String
  | located problem _ => problem.cause?
  | internal _ => none

def location? : EvaluationError → Option Location
  | located _ location => some location
  | internal _ => none

def heading : ErrorKind → String
  | .syntactic => "CJSON syntax error: "
  | .semantic => "CJSON error: "
  | .environment => "Error while evaluating CJSON: "

/-- The whole message, with the line of the source. -/
def render (s : Snippet) : EvaluationError → String
  | located problem location => s.format (heading problem.kind ++ problem.message) location
  | internal message => "CJSON interpreter bug: " ++ message

def describe (e : EvaluationError) : String :=
  e.render {}

end EvaluationError
end Cjson
