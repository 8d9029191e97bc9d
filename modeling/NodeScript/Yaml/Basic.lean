import NodeScript.Decimal.Reader

/-!
# YAML values

The values of YAML documents, and what a scalar without quotes stands for.
-/

namespace NodeScript

inductive Yaml where
  | null
  | bool (b : Bool)
  | int (i : Int)
  /-- A number with a fraction or an exponent, as it is written. -/
  | real (text : String)
  | str (s : String)
  | seq (items : List Yaml)
  | map (fields : List (Yaml × Yaml))
deriving Inhabited

namespace Yaml

/-- The number that digits in a base denote, none of them missing or too large. -/
def readBase? (base : Nat) (cs : List Char) : Option Nat :=
  let digit? (c : Char) : Option Nat :=
    let n :=
      if c.isDigit then c.toNat - '0'.toNat
      else if c.isAlpha then c.toLower.toNat - 'a'.toNat + 10
      else base
    if n < base then some n else none
  if cs.isEmpty then none
  else (cs.mapM digit?).map fun digits => digits.foldl (fun n d => base * n + d) 0

/-- A whole number of 64 bits in a base, with an optional sign. -/
def readSigned? (base : Nat) (cs : List Char) : Option Int64 :=
  let (negative, digits) := Decimal.takeSign cs
  (readBase? base digits).bind fun n => Decimal.toInt64? (if negative then -(n : Int) else n)

/-- A whole number of 64 bits that is marked as one at its beginning: in base sixteen after `0x`, in
base eight after `0o`, in decimal after a plus, which another sign may follow. -/
def readMarkedInt? : List Char → Option Int64
  | '0' :: 'x' :: cs => readSigned? 16 cs
  | '0' :: 'o' :: cs => readSigned? 8 cs
  | '+' :: cs => readSigned? 10 cs
  | _ => none

/-- Whether a text is a number with a fraction or an exponent, or one of the special numbers. -/
def isReal (text : String) : Bool :=
  [".inf", ".Inf", ".INF", "+.inf", "+.Inf", "+.INF", "-.inf", "-.Inf", "-.INF", ".nan", ".NaN",
    ".NAN"].contains text ||
    (text.toList.any Char.isDigit && (Binary64.read? text).isSome)

/-- What a scalar without quotes stands for. -/
def ofPlain (text : String) : Yaml :=
  match readMarkedInt? text.toList with
  | some i => .int i.toInt
  | none =>
    if text == "" || text == "~" || text == "null" then .null
    else if text == "true" || text == "True" || text == "TRUE" then .bool true
    else if text == "false" || text == "False" || text == "FALSE" then .bool false
    else match readSigned? 10 text.toList with
      | some i => .int i.toInt
      | none => if isReal text then .real text else .str text

mutual

/-- Whether two values are the same. Numbers with a fraction are compared as they are written, and
mappings with the order of their fields. -/
def same : Yaml → Yaml → Bool
  | .null, .null => true
  | .bool a, .bool b => a == b
  | .int a, .int b => a == b
  | .real a, .real b => a == b
  | .str a, .str b => a == b
  | .seq as, .seq bs => sameItems as bs
  | .map as, .map bs => sameFields as bs
  | _, _ => false

def sameItems : List Yaml → List Yaml → Bool
  | [], [] => true
  | a :: as, b :: bs => a.same b && sameItems as bs
  | _, _ => false

/-- Whether two mappings have the same fields in the same order. -/
def sameFields : List (Yaml × Yaml) → List (Yaml × Yaml) → Bool
  | [], [] => true
  | (k, a) :: as, (l, b) :: bs => k.same l && a.same b && sameFields as bs
  | _, _ => false

end

/-- The fields of a mapping with one more; a key must not come twice. -/
def addField? (fields : List (Yaml × Yaml)) (key value : Yaml) : Option (List (Yaml × Yaml)) :=
  if fields.any fun (k, _) => k.same key then none else some (fields ++ [(key, value)])

/-- The value under a key of a mapping; nothing when it is missing or null. -/
def field? (v : Yaml) (key : String) : Option Yaml :=
  match v with
  | .map fields =>
    match fields.find? fun (k, _) => k.same (.str key) with
    | some (_, .null) => none
    | some (_, value) => some value
    | none => none
  | _ => none

def isMap : Yaml → Bool
  | .map _ => true
  | _ => false

end Yaml

end NodeScript
