import NodeScript.Decimal.Layout
import NodeScript.Decimal.Reader

/-!
# Scalars

A single value of a script: a boolean, a whole number, a floating-point number or a text.
-/

namespace NodeScript

inductive Scalar where
  | bool (b : Bool)
  | int (i : Int64)
  | float (x : Binary64)
  | text (s : String)
deriving DecidableEq

namespace Scalar

/-- The boolean that a text spells, in any case of letters. -/
def readBool? (s : String) : Option Bool :=
  let word := Decimal.lowercase s.toList
  if word = "true".toList then some true
  else if word = "false".toList then some false
  else none

def asBool? : Scalar → Option Bool
  | .bool b => some b
  | _ => none

def asInt? : Scalar → Option Int64
  | .int i => some i
  | _ => none

/-- The value as a floating-point number; a whole number is rounded to the nearest one. -/
def asFloat? : Scalar → Option Binary64
  | .int i => some (.ofInt i.toInt)
  | .float x => some x
  | _ => none

def asText? : Scalar → Option String
  | .text s => some s
  | _ => none

/-- Equality of values, where floating-point numbers are compared as numbers. -/
def same : Scalar → Scalar → Bool
  | .float x, .float y => x.numEq y
  | a, b => a == b

/-- Whether `c` can begin a word that needs no quotes. -/
def isBareStart (c : Char) : Bool :=
  c.isAlpha || c == '_'

/-- Whether a text stands for itself without quotes: a word of ASCII letters, digits and
underscores that begins with no digit and spells no boolean. -/
def isBare (s : String) : Bool :=
  s.toList.head?.any isBareStart && s.toList.all (fun c => c.isAlphanum || c == '_') &&
    (readBool? s).isNone

/-- A text between double quotes, with a backslash before each quote and backslash. -/
def quote (cs : List Char) : List Char :=
  '"' :: cs.flatMap (fun c => if c = '"' ∨ c = '\\' then ['\\', c] else [c]) ++ ['"']

/-- A text without its quotes, if it stands in quotes, and without its escapes. -/
def unquote (s : String) : String :=
  let inner := match s.toList with
    | '"' :: rest => if rest.getLast? = some '"' then rest.dropLast else s.toList
    | cs => cs
  String.ofList (unescape inner)
where
  unescape : List Char → List Char
    | '\\' :: c :: rest => c :: unescape rest
    | c :: rest => c :: unescape rest
    | [] => []

/-- The value as a script writes it. -/
def render : Scalar → String
  | .bool b => if b then "true" else "false"
  | .int i => toString i.toInt
  | .float x => x.render
  | .text s => if isBare s then s else String.ofList (quote s.toList)

end Scalar

end NodeScript
