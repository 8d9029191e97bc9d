import NodeScript.Pattern.Basic

/-!
# Canonical patterns

The constructors by which patterns are put together. They leave out what cannot matter, join
sequences in sequences and alternations in alternations, and take out what all branches of an
alternation begin with. All this keeps the matches, but not always the order in which a repetition
comes upon the places where nothing has been read, so it belongs to what a pattern means.
-/

namespace NodeScript.Pattern

/-- Patterns joined by an operation, which groups to the right. -/
def join (op : Pattern → Pattern → Pattern) (first : Pattern) : List Pattern → Pattern
  | [] => first
  | second :: rest => op first (join op second rest)

def concat (items : List Pattern) : Pattern :=
  match items.flatMap parts with
  | [] => .empty
  | first :: rest => join .seq first rest

/-- The character that the pattern stands for, when it is no more than that. -/
def literal? : Pattern → Option Char
  | .one (.single c) => some c
  | _ => none

/-- The characters that the pattern chooses from, when it is a class. -/
def charSet? : Pattern → Option CharSet
  | .one (.single _) => none
  | .one set => some set
  | _ => none

def ofChars (chars : List Char) : Pattern :=
  .one (.ofList (chars.eraseDups.map .single))

/-- A choice between branches, of which single characters become a class. -/
def choice (items : List Pattern) : Pattern :=
  let items := items.flatMap branches
  match items with
  | [] => .one .empty
  | [p] => p
  | first :: rest =>
    match items.mapM literal?, items.mapM charSet? with
    | some chars, _ => ofChars chars
    | none, some sets => .one (.ofList sets.eraseDups)
    | none, none => join .alt first rest

/-- The parts of a sequence with neighbouring characters gathered into words. -/
def words (items : List Pattern) : List (List Pattern) :=
  items.splitBy fun p q => p.literal?.isSome && q.literal?.isSome

/-- What two lists both begin with. -/
def commonPrefix {α : Type} [DecidableEq α] : List α → List α → List α
  | a :: as, b :: bs => if a = b then a :: commonPrefix as bs else []
  | _, _ => []

/-- The words of a sequence of at least two. -/
def sequenceWords? (p : Pattern) : Option (List (List Pattern)) :=
  let ws := words p.parts
  if 1 < ws.length then some ws else none

/-- Branches as what all of them begin with and what follows it, when all are sequences. -/
def factor? (items : List Pattern) : Option (Pattern × List Pattern) := do
  let sequences ← items.mapM sequenceWords?
  match sequences with
  | first :: second :: rest =>
    let common := (second :: rest).foldl commonPrefix first
    if common.isEmpty then none
    else some (concat common.flatten, (first :: second :: rest).map fun ws =>
      concat (ws.drop common.length).flatten)
  | _ => none

/-- A choice between branches; what all of them begin with is matched before the choice. -/
def alternation (items : List Pattern) : Pattern :=
  let p := choice items
  match factor? p.branches with
  | some (start, rest) => concat [start, choice rest]
  | none => p

/-- A repetition. Where the body reads nothing, one round is as good as many. -/
def repetition (body : Pattern) (least : Nat) (extra : Option Nat) (greedy : Bool) : Pattern :=
  let (least, extra) :=
    if body.readsNothing then
      (min least 1, some (match extra with
        | some n => min (least + n) 1 - min least 1
        | none => 1 - min least 1))
    else (least, extra)
  match least, extra with
  | 0, some 0 => .empty
  | 1, some 0 => body
  | _, _ => .rep body least extra greedy

end NodeScript.Pattern
