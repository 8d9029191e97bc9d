import NodeScript.Decimal.Layout

/-!
# JSON values

The values of JSON, with fields in the order they are written, and their two written forms.
-/

namespace NodeScript

inductive Json where
  | null
  | bool (b : Bool)
  | int (i : Int)
  | float (x : Binary64)
  | str (s : String)
  | arr (items : List Json)
  | obj (fields : List (String × Json))
  /-- What is well formed but has no value: a number past the range of floating-point numbers, or
  a text with half a surrogate pair. It may stand where nobody looks, and is never written. -/
  | void

namespace Json

def hexDigit (n : Nat) : Char :=
  if n < 10 then Char.ofNat ('0'.toNat + n) else Char.ofNat ('a'.toNat + (n - 10))

/-- The written form of a character in a text: the quote, the backslash and the control
characters are escaped. -/
def escape (c : Char) : List Char :=
  if c = '"' then ['\\', '"']
  else if c = '\\' then ['\\', '\\']
  else if c = '\n' then ['\\', 'n']
  else if c = '\r' then ['\\', 'r']
  else if c = '\t' then ['\\', 't']
  else if c = '\x08' then ['\\', 'b']
  else if c = '\x0c' then ['\\', 'f']
  else if c.toNat < 0x20 then
    ['\\', 'u', '0', '0', hexDigit (c.toNat / 16), hexDigit (c.toNat % 16)]
  else [c]

def quote (s : String) : String :=
  String.ofList ('"' :: s.toList.flatMap escape ++ ['"'])

/-- A floating-point number; one that is not finite is written as `null`. -/
def renderFloat : Binary64 → String
  | .finite negative significand scale canonical =>
    String.ofList (Layout.json.finite negative significand scale canonical)
  | _ => "null"

mutual

/-- The written form without blanks. -/
def compact : Json → String
  | .null => "null"
  | .bool b => if b then "true" else "false"
  | .int i => toString i
  | .float x => renderFloat x
  | .str s => quote s
  | .arr items => "[" ++ String.intercalate "," (compactItems items) ++ "]"
  | .obj fields => "\x7b" ++ String.intercalate "," (compactFields fields) ++ "\x7d"
  | .void => "null"

def compactItems : List Json → List String
  | [] => []
  | v :: rest => v.compact :: compactItems rest

def compactFields : List (String × Json) → List String
  | [] => []
  | (name, v) :: rest => (quote name ++ ":" ++ v.compact) :: compactFields rest

end

/-- Written parts in brackets, each on a line of its own; no parts stay on one line. -/
def block (indent opening closing : String) (parts : List String) : String :=
  if parts.isEmpty then opening ++ closing
  else
    let inner := "\n" ++ indent ++ "  "
    opening ++ inner ++ String.intercalate ("," ++ inner) parts ++ "\n" ++ indent ++ closing

mutual

/-- The written form with a line for each item and each field, inside what is indented by
`indent`. -/
def prettyAt (indent : String) : Json → String
  | .arr items => block indent "[" "]" (prettyItems (indent ++ "  ") items)
  | .obj fields => block indent "\x7b" "\x7d" (prettyFields (indent ++ "  ") fields)
  | v => v.compact

def prettyItems (indent : String) : List Json → List String
  | [] => []
  | v :: rest => v.prettyAt indent :: prettyItems indent rest

def prettyFields (indent : String) : List (String × Json) → List String
  | [] => []
  | (name, v) :: rest => (quote name ++ ": " ++ v.prettyAt indent) :: prettyFields indent rest

end

/-- The written form with a line for each item and each field. -/
def pretty (v : Json) : String :=
  v.prettyAt ""

mutual

/-- Whether everything in the value has a value, with lists and records at most `levels` deep in one
another. -/
def isSoundWithin : (levels : Nat) → Json → Bool
  | _, .void => false
  | 0, .arr _ => false
  | 0, .obj _ => false
  | levels + 1, .arr items => areSoundWithin levels items
  | levels + 1, .obj fields => areSoundFieldsWithin levels fields
  | _, _ => true

/-- Whether everything in a list has a value, with lists and records at most `levels` deep. -/
def areSoundWithin : (levels : Nat) → List Json → Bool
  | _, [] => true
  | levels, v :: rest => v.isSoundWithin levels && areSoundWithin levels rest

/-- Whether everything in the fields of a record has a value, with lists and records at most
`levels` deep. -/
def areSoundFieldsWithin : (levels : Nat) → List (String × Json) → Bool
  | _, [] => true
  | levels, (_, v) :: rest => v.isSoundWithin levels && areSoundFieldsWithin levels rest

end

end Json

end NodeScript
