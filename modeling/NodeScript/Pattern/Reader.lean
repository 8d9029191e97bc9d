import NodeScript.Pattern.Bracket
import NodeScript.Pattern.Canonical
import NodeScript.Pattern.Size

/-!
# Reading patterns

A pattern's text is read from left to right with a stack of open groups. Settings such as `(?i)`
hold from where they stand to the end of their group.
-/

namespace NodeScript.Pattern

/-- The settings in force at a place of the text. -/
structure Mode where
  ignoreCase : Bool
  multiLine : Bool
  dotAll : Bool
  swapGreed : Bool

/-- No setting is in force at the start of a pattern. -/
def Mode.initial : Mode :=
  ⟨false, false, false, false⟩

/-- What stands in a group: a pattern, which can be repeated, or a setting, which cannot. -/
inductive Item where
  /-- A pattern, in whose text constructs are nested as deep as `depth`. -/
  | pattern (p : Pattern) (depth : Nat)
  | setting

/-- The depth of what stands in a group. -/
def Item.depth : Item → Nat
  | .pattern _ depth => depth
  | .setting => 0

/-- One more than the greatest of some depths where there are several of them. -/
def depthAround : List Nat → Nat
  | [] => 0
  | [depth] => depth
  | depths => depths.foldl max 0 + 1

/-- A group whose closing parenthesis is still to come. -/
structure OpenGroup where
  /-- The number of the group when it is a capturing one. -/
  number : Option Nat
  /-- The finished alternatives with their depths, latest first. -/
  alternatives : List (Pattern × Nat)
  /-- The items of the current alternative, latest first. -/
  items : List Item

namespace OpenGroup

def empty (number : Option Nat) : OpenGroup :=
  ⟨number, [], []⟩

/-- The current alternative with its depth. -/
def sequence (g : OpenGroup) : Pattern × Nat :=
  (concat (g.items.reverse.filterMap fun | .pattern p _ => some p | .setting => none),
    depthAround (g.items.map Item.depth))

/-- The group with the current alternative finished. -/
def finish (g : OpenGroup) : OpenGroup :=
  { g with alternatives := g.sequence :: g.alternatives, items := [] }

/-- The pattern that closing the group gives, with its depth. -/
def close (g : OpenGroup) : Pattern × Nat :=
  let alternatives := (g.sequence :: g.alternatives).reverse
  let p := alternation (alternatives.map Prod.fst)
  (match g.number with
    | some number => .group number p
    | none => p,
    depthAround (alternatives.map Prod.snd))

def add (g : OpenGroup) (i : Item) : OpenGroup :=
  { g with items := i :: g.items }

end OpenGroup

/-- How far a pattern has been read. -/
structure Progress where
  mode : Mode
  group : OpenGroup
  /-- The enclosing groups, innermost first, each with the settings that hold again in it. -/
  outer : List (Mode × OpenGroup)
  /-- The names of groups so far. -/
  names : List String
  /-- How many capturing groups there are so far. -/
  groups : Nat

namespace Progress

def add (s : Progress) (i : Item) : Progress :=
  { s with group := s.group.add i }

def addPattern (s : Progress) (p : Pattern) : Progress :=
  s.add (.pattern p 0)

/-- One more character, in any case where case is ignored. -/
def addChar (s : Progress) (c : Char) : Progress :=
  s.addPattern (.one (OpenBracket.fold s.mode.ignoreCase (.single c)))

/-- Opens a group in which `mode` holds. -/
def openGroup (s : Progress) (mode : Mode) : Progress :=
  { s with mode, group := .empty none, outer := (s.mode, s.group) :: s.outer }

def openCapture (s : Progress) : Progress :=
  { s with
    group := .empty (some s.groups)
    outer := (s.mode, s.group) :: s.outer
    groups := s.groups + 1 }

/-- Closes the current group; there must be one. -/
def closeGroup? (s : Progress) : Option Progress :=
  match s.outer with
  | [] => none
  | (mode, enclosing) :: outer =>
    let (p, depth) := s.group.close
    some { s with mode, group := enclosing.add (.pattern p (depth + 1)), outer }

/-- Repeats the last item, which must be a pattern; a question mark after the repetition makes it
lazy. -/
def repeatLast? (s : Progress) (least : Nat) (extra : Option Nat) (rest : List Char) :
    Option (Progress × List Char) :=
  match s.group.items with
  | .pattern p depth :: before =>
    let (greedy, rest) := match rest with
      | '?' :: rest => (false, rest)
      | _ => (true, rest)
    let repeated := repetition p least extra (greedy != s.mode.swapGreed)
    let items := .pattern repeated (depth + 1) :: before
    some ({ s with group := { s.group with items } }, rest)
  | _ => none

end Progress

/-- A count that fits into 32 bits, with blanks around it. -/
def readCount? (cs : List Char) : Option (Nat × List Char) :=
  let (digits, rest) := Decimal.spanDigits (cs.dropWhile Text.isBlank)
  let n := Decimal.ofDigits digits
  if digits.isEmpty || UInt32.size ≤ n then none else some (n, rest.dropWhile Text.isBlank)

/-- The counts of a repetition after its opening brace: `n`, `n,` or `n,m` with `n` at most `m`,
as the least count and how many more there may be. -/
def readCounts? (cs : List Char) : Option ((Nat × Option Nat) × List Char) := do
  let (least, rest) ← readCount? cs
  match rest with
  | '\x7d' :: rest => some ((least, some 0), rest)
  | ',' :: '\x7d' :: rest => some ((least, none), rest)
  | ',' :: rest => do
    let (most, rest) ← readCount? rest
    match rest with
    | '\x7d' :: rest => if least ≤ most then some ((least, some (most - least)), rest) else none
    | _ => none
  | _ => none

/-- The settings between `(?` and the colon or parenthesis that ends them, each named at most
once, those after a hyphen switched off. The answer is the mode, whether a parenthesis ended
them, and what follows. -/
def readSettings? (mode : Mode) (seen : List Char) (on lastHyphen : Bool) :
    List Char → Option (Mode × Bool × List Char)
  | [] => none
  | c :: rest =>
    if c = ':' ∨ c = ')' then
      if lastHyphen || (c = ')' && seen.isEmpty) then none else some (mode, c == ')', rest)
    else if c = '-' then
      if on then readSettings? mode seen false true rest else none
    else if seen.contains c then none
    else match c with
      | 'i' => readSettings? { mode with ignoreCase := on } (c :: seen) on false rest
      | 'm' => readSettings? { mode with multiLine := on } (c :: seen) on false rest
      | 's' => readSettings? { mode with dotAll := on } (c :: seen) on false rest
      | 'U' => readSettings? { mode with swapGreed := on } (c :: seen) on false rest
      | 'u' => if on then readSettings? mode (c :: seen) on false rest else none
      | _ => none

/-- Whether `c` may stand in the name of a group, at its start or further on. -/
def isNameChar (first : Bool) (c : Char) : Bool :=
  c == '_' || (if first then c.isAlpha else c.isAlphanum || c == '.' || c == '[' || c == ']') ||
    (0x80 ≤ c.toNat && Text.isWordChar c)

/-- A new group name up to its closing angle bracket. -/
def readGroupName? (names : List String) (cs : List Char) : Option (String × List Char) :=
  match cs.span (· != '>') with
  | (c :: more, _ :: rest) =>
    let name := String.ofList (c :: more)
    if isNameChar true c && more.all (isNameChar false) && !names.contains name then
      some (name, rest)
    else none
  | _ => none

/-- What follows an opening parenthesis. -/
def readGroup? (s : Progress) (cs : List Char) : Option (Progress × List Char) :=
  let named (rest : List Char) := do
    let (name, rest) ← readGroupName? s.names rest
    some ({ s with names := name :: s.names }.openCapture, rest)
  match cs with
  | '?' :: 'P' :: '<' :: rest => named rest
  | '?' :: '<' :: '=' :: _ => none
  | '?' :: '<' :: '!' :: _ => none
  | '?' :: '<' :: rest => named rest
  | '?' :: rest => do
    let (mode, alone, rest) ← readSettings? s.mode [] true false rest
    if alone then some ({ s with mode }.add .setting, rest) else some (s.openGroup mode, rest)
  | _ => some (s.openCapture, cs)

/-- Reads the next part of a pattern. -/
def step? (s : Progress) (c : Char) (rest : List Char) : Option (Progress × List Char) :=
  match c with
  | '(' => readGroup? s rest
  | ')' => s.closeGroup?.map (·, rest)
  | '|' => some ({ s with group := s.group.finish }, rest)
  | '*' => s.repeatLast? 0 none rest
  | '+' => s.repeatLast? 1 none rest
  | '?' => s.repeatLast? 0 (some 1) rest
  | '\x7b' => do
    let ((least, extra), rest) ← readCounts? rest
    s.repeatLast? least extra rest
  | '[' => do
    let (set, rest) ← readBracket? s.mode.ignoreCase rest
    some (s.add (.pattern (.one set) 1), rest)
  | '.' => some (s.addPattern (.one (if s.mode.dotAll then .any else .notLineFeed)), rest)
  | '^' => some (s.addPattern (.anchor (if s.mode.multiLine then .lineStart else .textStart)), rest)
  | '$' => some (s.addPattern (.anchor (if s.mode.multiLine then .lineEnd else .textEnd)), rest)
  | '\\' => do
    let (element, rest) ← readEscape? rest
    match element with
    | .char c => some (s.addChar c, rest)
    | .set set => some (s.addPattern (.one set), rest)
    | .anchor a => some (s.addPattern (.anchor a), rest)
  | c => some (s.addChar c, rest)

/-- Reads parts until the text ends. Every part has a character, so `limit` is their count. -/
def readParts? : (limit : Nat) → Progress → List Char → Option Progress
  | _, s, [] => some s
  | 0, _, _ :: _ => none
  | limit + 1, s, c :: rest =>
    match step? s c rest with
    | some (s, rest) => readParts? limit s rest
    | none => none

/-- How deep the constructs of a pattern may be nested. -/
def maxDepth : Nat := 250

/-- The pattern a text denotes, when it is one that is neither nested too deep nor too large. -/
def read? (cs : List Char) : Option Pattern := do
  let s ← readParts? cs.length ⟨.initial, .empty none, [], [], 0⟩ cs
  let (p, depth) := s.group.close
  if s.outer.isEmpty && depth ≤ maxDepth && p.size ≤ maxSize then some p else none

end NodeScript.Pattern
