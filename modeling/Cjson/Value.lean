import Cjson.Entries
import Cjson.Fragment
import Cjson.Number

namespace Cjson

/-- An object of the host program. It has no written form that could be read back, and
is told from others by its identity alone. -/
structure Foreign where
  identity : Nat
  typeName : String
  display : String
  deriving DecidableEq

inductive Value where
  | null
  | boolean (b : Bool)
  | int (n : Int32)
  /-- A 64-bit integer; reading never makes one, but hosts may. -/
  | long (n : Int64)
  | decimal (d : Decimal)
  /-- A number with more digits or a larger exponent than a `Decimal` has room for. -/
  | bigDecimal (d : BigDecimal)
  | string (s : String)
  | list (items : List Value)
  | map (entries : List (String × Value))
  /-- A function call that the environment left as it is. -/
  | call (function : String) (arguments : List Value)
  | fragment (f : Fragment)
  | foreign (f : Foreign)
  deriving Inhabited

namespace Value

def typeName : Value → String
  | null => "null"
  | boolean _ => "boolean"
  | int _ => "int"
  | long _ => "long"
  | decimal _ | bigDecimal _ => "big-decimal"
  | string _ => "string"
  | list _ => "list"
  | map _ => "map"
  | call _ _ => "function call"
  | fragment _ => "fragment"
  | foreign f => f.typeName

def isNull : Value → Bool
  | null => true
  | _ => false

def boolean? : Value → Option Bool
  | boolean b => some b
  | _ => none

def string? : Value → Option String
  | string s => some s
  | _ => none

def list? : Value → Option (List Value)
  | list items => some items
  | _ => none

def map? : Value → Option (Entries Value)
  | map entries => some entries
  | _ => none

def fragment? : Value → Option Fragment
  | fragment f => some f
  | _ => none

/-- Any number that is an integer within 64 bits, whatever its variant. -/
def int64? : Value → Option Int64
  | int n => some n.toInt64
  | long n => some n
  | decimal d => d.toBigDecimal.toInt64?
  | bigDecimal d => d.toInt64?
  | _ => none

mutual

/-- Whether two values are equal: numbers of one variant by what they amount to, maps in
whatever order, foreign objects by identity. -/
def same : Value → Value → Bool
  | null, null => true
  | boolean a, boolean b => a == b
  | int a, int b => a == b
  | long a, long b => a == b
  | decimal a, decimal b => a.toBigDecimal.same b.toBigDecimal
  | bigDecimal a, bigDecimal b => a.same b
  | string a, string b => a == b
  | list as, list bs => sameItems as bs
  | map as, map bs => as.length == bs.length && foundIn as bs
  | call f as, call g bs => f == g && sameItems as bs
  | fragment a, fragment b => a == b
  | foreign a, foreign b => a.identity == b.identity
  | _, _ => false

def sameItems : List Value → List Value → Bool
  | [], [] => true
  | a :: as, b :: bs => same a b && sameItems as bs
  | _, _ => false

/-- Whether all entries of the first map are in the second. -/
def foundIn : Entries Value → Entries Value → Bool
  | [], _ => true
  | (key, a) :: rest, bs =>
    (match bs.lookup key with
      | some b => same a b
      | none => false) && foundIn rest bs

end

instance : BEq Value := ⟨same⟩

end Value
end Cjson
