import NodeScript.Pattern.Basic

/-!
# Matching by going back

A steady pattern is matched by trying its alternatives in order and going back when what follows
fails. In a steady pattern every round of a loop reads something, the next character tells which
way to go inside a loop, and few choices follow one another, so going back is cheap.
-/

namespace NodeScript.Pattern

/-! ## Steady patterns -/

/-- The set that the first character of every match is from, when it is easily told. -/
def firstSet? : Pattern → Option CharSet
  | .one set => some set
  | .seq first _ => first.firstSet?
  | .group _ body => body.firstSet?
  | _ => none

/-- Whether the next character rules out one of two patterns, when that is easily told. -/
def areApart (p q : Pattern) : Bool :=
  match p.firstSet?, q.firstSet? with
  | some (.single c), some set => !set.accepts c
  | some set, some (.single c) => !set.accepts c
  | _, _ => false

/-- Whether the pattern has no repetition and the next character decides between alternatives. -/
def isFlat : Pattern → Bool
  | .alt first second => first.isFlat && second.isFlat && first.areApart second
  | .seq first second => first.isFlat && second.isFlat
  | .group _ body => body.isFlat
  | .rep .. => false
  | _ => true

/-- Whether all repetitions, optional parts aside, are of flat patterns that read something. -/
def hasFlatLoops : Pattern → Bool
  | .seq first second => first.hasFlatLoops && second.hasFlatLoops
  | .alt first second => first.hasFlatLoops && second.hasFlatLoops
  | .group _ body => body.hasFlatLoops
  | .rep body 0 (some 1) _ => body.hasFlatLoops
  | .rep body _ _ _ => body.isFlat && body.readsSomething
  | _ => true

/-- How many repetitions a match can go through one after the other. -/
def choices : Pattern → Nat
  | .seq first second => first.choices + second.choices
  | .alt first second => max first.choices second.choices
  | .group _ body => body.choices
  | .rep body _ _ _ => body.choices + 1
  | _ => 0

/-- How many choices of a steady pattern can follow one another. -/
def maxChoices : Nat := 6

/-- Whether the pattern is matched by going back. -/
def isSteady (p : Pattern) : Bool :=
  p.hasFlatLoops && p.choices ≤ maxChoices

/-! ## Matching -/

/-- A way to go on from a place. -/
abbrev Continuation (α : Type) := Cursor → Option α

@[inline] def orElse {α : Type} (a b : Unit → Option α) : Option α :=
  match a () with
  | some r => some r
  | none => b ()

/-- Tries `again` and `stop`, `again` first when greedy. -/
@[inline] def choose {α : Type} (greedy : Bool) (again stop : Unit → Option α) : Option α :=
  if greedy then orElse again stop else orElse stop again

def times {α : Type} (body : Cursor → Continuation α → Option α) :
    Nat → Cursor → Continuation α → Option α
  | 0, c, k => k c
  | count + 1, c, k => body c fun c' => times body count c' k

def atMost {α : Type} (greedy : Bool) (body : Cursor → Continuation α → Option α) :
    Nat → Cursor → Continuation α → Option α
  | 0, c, k => k c
  | count + 1, c, k =>
    choose greedy (fun _ => body c fun c' => atMost greedy body count c' k) (fun _ => k c)

/-- Matches the pattern at `c` and goes on with `k`, until one way through succeeds. A loop whose
rounds all read something goes round at most once for each character left. -/
def run {α : Type} : Pattern → Cursor → Continuation α → Option α
  | .empty, c, k => k c
  | .one set, c, k =>
    match c.rest with
    | x :: rest => if set.accepts x then k (c.next x rest) else none
    | [] => none
  | .anchor a, c, k => if a.holds c then k c else none
  | .seq first second, c, k => first.run c fun c' => second.run c' k
  | .alt first second, c, k => orElse (fun _ => first.run c k) (fun _ => second.run c k)
  | .rep body least (some extra) greedy, c, k =>
    times body.run least c fun c' => atMost greedy body.run extra c' k
  | .rep body least none greedy, c, k =>
    times body.run least c fun c' => atMost greedy body.run c'.rest.length c' k
  | .group _ body, c, k => body.run c k

/-- Where the match of a steady pattern at `c` ends. -/
def matchAt? (p : Pattern) (c : Cursor) : Option Nat :=
  p.run c fun c' => some c'.offset

end NodeScript.Pattern
