import Cjson.Proofs.Literal
import Cjson.Proofs.Numeral

namespace Cjson

/-- The data of a JSON text. -/
inductive Json where
  | null
  | boolean (b : Bool)
  | number (q : ℚ)
  | string (s : String)
  | array (items : List Json)
  | object (members : List (String × Json))

namespace Json

/-- The white space of JSON, as much as there is of it. -/
def Blank (g : List Char) : Prop :=
  ∀ c ∈ g, c = ' ' ∨ c = '\t' ∨ c = '\n' ∨ c = '\r'

/-- What single characters stand for behind a backslash. -/
def escapes : List (Char × Char) :=
  [('"', '"'), ('\\', '\\'), ('/', '/'), ('b', '\x08'), ('f', '\x0c'), ('n', '\n'),
    ('r', '\r'), ('t', '\t')]

/-- The digits of an escape with a code unit of 16 bits. -/
structure CodeUnit (digits : List Char) : Prop where
  four : digits.length = 4
  hex : ∀ d ∈ digits, (Scan.hexValue? d).isSome = true

/-- A character of a string, written with at most one escape. -/
inductive PlainChar : Char → List Char → Prop
  | verbatim {c : Char} (noControl : 0x20 ≤ c.toNat) (noQuote : c ≠ '"') (noEscape : c ≠ '\\') :
      PlainChar c [c]
  | letter {e c : Char} (escape : (e, c) ∈ escapes) : PlainChar c ['\\', e]
  | code {digits : List Char} (unit : CodeUnit digits)
      (noSurrogate : ¬(0xD800 ≤ Scan.hexNumber digits ∧ Scan.hexNumber digits ≤ 0xDFFF)) :
      PlainChar (.ofNat (Scan.hexNumber digits)) ('\\' :: 'u' :: digits)

/-- A character of a string. One that does not fit into 16 bits may be written as two
surrogates. -/
inductive CharText : Char → List Char → Prop
  | plain {c : Char} {s : List Char} (plain : PlainChar c s) : CharText c s
  | pair {high low : List Char} (unit : CodeUnit high) (unit' : CodeUnit low)
      (isHigh : 0xD800 ≤ Scan.hexNumber high ∧ Scan.hexNumber high ≤ 0xDBFF)
      (isLow : 0xDC00 ≤ Scan.hexNumber low ∧ Scan.hexNumber low ≤ 0xDFFF) :
      CharText
        (.ofNat (0x10000 + 0x400 * (Scan.hexNumber high - 0xD800) +
          (Scan.hexNumber low - 0xDC00)))
        ('\\' :: 'u' :: high ++ '\\' :: 'u' :: low)

/-- The texts between the quotes of a string, with characters of the kind `C`. -/
inductive Chars (C : Char → List Char → Prop) : List Char → List Char → Prop
  | nil : Chars C [] []
  | cons {c : Char} {cs s rest : List Char} (first : C c s) (others : Chars C cs rest) :
      Chars C (c :: cs) (s ++ rest)

inductive StringText (C : Char → List Char → Prop) : String → List Char → Prop
  | intro {cs body : List Char} (chars : Chars C cs body) :
      StringText C (.ofList cs) ('"' :: body ++ ['"'])

inductive Exponent : Int → List Char → Prop
  | none : Exponent 0 []
  | some {negative : Bool} {c : Char} {sign digits : List Char} (mark : c = 'e' ∨ c = 'E')
      (signed : Numeral.Signed negative sign) (nonempty : digits ≠ [])
      (isDigit : ∀ d ∈ digits, d.isDigit = true) :
      Exponent (Numeral.signed negative (Nat.ofDigitChars 10 digits 0)) (c :: sign ++ digits)

/-- A number has digits in front of its point, and behind it if there is one. A zero is in
front of no other digits. -/
inductive NumberText : Numeral → List Char → Prop
  | intro {negative : Bool} {whole fraction sign point tail : List Char} {exponent : Int}
      (signed : Numeral.Signed negative sign) (noPlus : sign ≠ ['+']) (nonempty : whole ≠ [])
      (digits : ∀ c ∈ whole, c.isDigit = true) (noZero : whole.head? = some '0' → whole = ['0'])
      (digits' : ∀ c ∈ fraction, c.isDigit = true)
      (pointed : (point = '.' :: fraction ∧ fraction ≠ []) ∨ (point = [] ∧ fraction = []))
      (raised : Exponent exponent tail) :
      NumberText ⟨negative, whole, fraction, exponent⟩ (sign ++ (whole ++ point ++ tail))

/-- Items in a row with commas between them, each of them a text with `P`. -/
inductive Listed {α : Type} (P : α → List Char → Prop) : List α → List Char → Prop
  | nil : Listed P [] []
  | last {a : α} {s g : List Char} (item : P a s) (blank : Blank g) : Listed P [a] (s ++ g)
  | comma {a : α} {as : List α} {s g g' r : List Char} (item : P a s) (blank : Blank g)
      (blank' : Blank g') (others : Listed P as r) (nonempty : as ≠ []) :
      Listed P (a :: as) (s ++ g ++ ',' :: g' ++ r)

section Grammar

variable (N : Numeral → List Char → Prop) (C : Char → List Char → Prop)

mutual

/-- The texts of some data, with numbers of the kind `N` and characters of the kind `C` in
strings. -/
inductive Spelled : Json → List Char → Prop
  | null : Spelled null "null".toList
  | boolean (b : Bool) : Spelled (boolean b) (if b then "true" else "false").toList
  | number {n : Numeral} {s : List Char} (written : N n s) : Spelled (number n.toRat) s
  | string {str : String} {s : List Char} (written : StringText C str s) :
      Spelled (string str) s
  | array {items : List Json} {g s : List Char} (blank : Blank g)
      (listed : Listed Spelled items s) : Spelled (array items) ('[' :: g ++ s ++ [']'])
  | object {members : List (String × Json)} {g s : List Char} (blank : Blank g)
      (listed : Listed MemberSpelled members s) :
      Spelled (object members) ('\x7b' :: g ++ s ++ ['\x7d'])

inductive MemberSpelled : String × Json → List Char → Prop
  | intro {key : String} {s g g' u : List Char} {j : Json} (written : StringText C key s)
      (blank : Blank g) (blank' : Blank g') (value : Spelled j u) :
      MemberSpelled (key, j) (s ++ g ++ ':' :: g' ++ u)

end

/-- A whole text, with white space around the data. -/
def Text (j : Json) (text : List Char) : Prop :=
  ∃ g s g', Blank g ∧ Spelled N C j s ∧ Blank g' ∧ text = g ++ s ++ g'

end Grammar

/-- The texts of RFC 8259 in which surrogates come in pairs. -/
def WellFormed : Json → List Char → Prop :=
  Text NumberText CharText

/-- What values data denote. Numbers may be of whatever variant. The members of an object
are in the order in which their keys first came up; the last one with a key has it. -/
inductive Denotes : Json → Value → Prop
  | null : Denotes null .null
  | boolean (b : Bool) : Denotes (boolean b) (.boolean b)
  | number {q : ℚ} {v : Value} (exact : v.rational? = some q) : Denotes (number q) v
  | string (s : String) : Denotes (string s) (.string s)
  | array {items : List Json} {vs : List Value} (each : List.Forall₂ Denotes items vs) :
      Denotes (array items) (.list vs)
  | object {members : List (String × Json)} {m : Entries Value}
      (order : Entries.keys m = (members.map Prod.fst).eraseDups)
      (last : ∀ key j v, members.reverse.lookup key = some j → m.lookup key = some v →
        Denotes j v) : Denotes (object members) (.map m)

end Json
end Cjson
