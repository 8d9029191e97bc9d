import NodeScript.Pattern.Escape

/-!
# Bracketed classes

The text of a class between brackets: characters, ranges, named classes, nested brackets, and
the set operations `&&`, `--` and `~~`, which group to the left.
-/

namespace NodeScript.Pattern

/-- An operation between two parts of a class. -/
inductive SetOperation where
  | inter
  | diff
  | symmDiff

/-- A class whose closing bracket is still to come. -/
structure OpenBracket where
  negated : Bool
  /-- The operation waiting for its right operand, with its left one. -/
  pending : Option (SetOperation × CharSet)
  /-- The members of the current operand, latest first. -/
  members : List CharSet

namespace OpenBracket

/-- Folds a set by case where the class is to ignore case. -/
def fold (ignoreCase : Bool) (s : CharSet) : CharSet :=
  if ignoreCase then
    match s with
    | .single c => if (Text.caseVariants c).all (· == c) then .single c else .anyCase (.single c)
    | s => .anyCase s
  else s

/-- The class read so far, with the pending operation carried out. -/
def operand (ignoreCase : Bool) (b : OpenBracket) : CharSet :=
  let right := CharSet.ofList b.members.reverse
  match b.pending with
  | none => right
  | some (op, left) =>
    let left := fold ignoreCase left
    let right := fold ignoreCase right
    match op with
    | .inter => .inter left right
    | .diff => .diff left right
    | .symmDiff => .symmDiff left right

/-- The class that closing the bracket gives. -/
def close (ignoreCase : Bool) (b : OpenBracket) : CharSet :=
  let s := fold ignoreCase (b.operand ignoreCase)
  if b.negated then .compl s else s

def add (b : OpenBracket) (s : CharSet) : OpenBracket :=
  { b with members := s :: b.members }

end OpenBracket

/-- Opens a bracket: a caret negates, then hyphens stand for themselves, and a closing bracket
that comes first does so too. -/
def openBracket (cs : List Char) : OpenBracket × List Char :=
  let (negated, cs) := match cs with
    | '^' :: rest => (true, rest)
    | _ => (false, cs)
  let (hyphens, cs) := cs.span (· == '-')
  let members := hyphens.map CharSet.single
  match members, cs with
  | [], ']' :: rest => (⟨negated, none, [.single ']']⟩, rest)
  | _, _ => (⟨negated, none, members⟩, cs)

/-- A class named between colons, as in `[:alpha:]`, after its opening bracket. -/
def readNamedClass? : List Char → Option (CharSet × List Char)
  | ':' :: cs => do
    let (negated, cs) := match cs with
      | '^' :: rest => (true, rest)
      | _ => (false, cs)
    let (name, rest) := cs.span (· != ':')
    let rest ← match rest with
      | ':' :: ']' :: rest => some rest
      | _ => none
    let s ← CharSet.ascii? (String.ofList name)
    some (if negated then .compl s else s, rest)
  | _ => none

/-- One member of a class. -/
def readElement? : List Char → Option (Element × List Char)
  | [] => none
  | '\\' :: rest => readEscape? rest
  | c :: rest => some (.char c, rest)

/-- A member or a range of characters. A hyphen before a closing bracket or before another hyphen
makes no range. -/
def readRange? (cs : List Char) : Option (CharSet × List Char) := do
  let (first, rest) ← readElement? cs
  let single : Option (CharSet × List Char) := match first with
    | .char c => some (.single c, rest)
    | .set s => some (s, rest)
    | .anchor _ => none
  match rest with
  | '-' :: ']' :: _ => single
  | '-' :: '-' :: _ => single
  | '-' :: after => do
    let (last, rest) ← readElement? after
    match first, last with
    | .char low, .char high => if low ≤ high then some (.range low high, rest) else none
    | _, _ => none
  | _ => single

/-- Reads on inside the bracket `current`, which stands in the brackets `outer`, until the
outermost one closes. Every round reads a character, so `limit` is their count. -/
def readMembers? (ignoreCase : Bool) :
    (limit : Nat) → (current : OpenBracket) → (outer : List OpenBracket) → List Char →
      Option (CharSet × List Char)
  | 0, _, _, _ => none
  | limit + 1, current, outer, cs =>
    let operation (op : SetOperation) (rest : List Char) :=
      readMembers? ignoreCase limit
        ⟨current.negated, some (op, current.operand ignoreCase), []⟩ outer rest
    match cs with
    | [] => none
    | '[' :: rest =>
      match readNamedClass? rest with
      | some (s, rest) => readMembers? ignoreCase limit (current.add s) outer rest
      | none =>
        let (inner, rest) := openBracket rest
        readMembers? ignoreCase limit inner (current :: outer) rest
    | ']' :: rest =>
      let s := current.close ignoreCase
      match outer with
      | [] => some (s, rest)
      | enclosing :: outer => readMembers? ignoreCase limit (enclosing.add s) outer rest
    | '&' :: '&' :: rest => operation .inter rest
    | '-' :: '-' :: rest => operation .diff rest
    | '~' :: '~' :: rest => operation .symmDiff rest
    | cs =>
      match readRange? cs with
      | some (s, rest) => readMembers? ignoreCase limit (current.add s) outer rest
      | none => none

/-- A class after its opening bracket, and what follows the class. -/
def readBracket? (ignoreCase : Bool) (cs : List Char) : Option (CharSet × List Char) :=
  let (b, rest) := openBracket cs
  readMembers? ignoreCase (rest.length + 1) b [] rest

end NodeScript.Pattern
