import NodeScript.Pattern.CharSet

/-!
# Patterns

A pattern denotes the ways in which a text can be read from a place on, in the order in which they
are tried: the first alternative before the second, and another round of a greedy repetition before
its end. Of several matches at a place the first in that order counts.
-/

namespace NodeScript

/-- A place in a text. -/
structure Cursor where
  /-- The character before the place. -/
  before : Option Char
  /-- The characters from the place on. -/
  rest : List Char
  /-- How many characters stand before the place. -/
  offset : Nat
deriving DecidableEq

namespace Cursor

def start (text : List Char) : Cursor :=
  ⟨none, text, 0⟩

def next (c : Cursor) (x : Char) (rest : List Char) : Cursor :=
  ⟨some x, rest, c.offset + 1⟩

/-- Whether a word character stands before the place. -/
def wordBefore (c : Cursor) : Bool :=
  c.before.any Text.isWordChar

/-- Whether a word character stands after the place. -/
def wordAfter (c : Cursor) : Bool :=
  c.rest.head?.any Text.isWordChar

end Cursor

/-- A condition on a place in a text. -/
inductive Anchor where
  | textStart
  | textEnd
  | lineStart
  | lineEnd
  | wordBoundary
  | notWordBoundary
  | wordStart
  | wordEnd
  | wordStartHalf
  | wordEndHalf
deriving DecidableEq

def Anchor.holds : Anchor → Cursor → Bool
  | .textStart, c => c.offset == 0
  | .textEnd, c => c.rest.isEmpty
  | .lineStart, c => c.offset == 0 || c.before == some '\n'
  | .lineEnd, c => c.rest.isEmpty || c.rest.head? == some '\n'
  | .wordBoundary, c => c.wordBefore != c.wordAfter
  | .notWordBoundary, c => c.wordBefore == c.wordAfter
  | .wordStart, c => !c.wordBefore && c.wordAfter
  | .wordEnd, c => c.wordBefore && !c.wordAfter
  | .wordStartHalf, c => !c.wordBefore
  | .wordEndHalf, c => !c.wordAfter

inductive Pattern where
  | empty
  | one (set : CharSet)
  | anchor (a : Anchor)
  | seq (first second : Pattern)
  | alt (first second : Pattern)
  /-- The body at least `least` times and, where a bound is given, at most `extra` times more;
  a greedy repetition tries another round before it stops. -/
  | rep (body : Pattern) (least : Nat) (extra : Option Nat) (greedy : Bool)
  /-- A capturing group with its number. -/
  | group (number : Nat) (body : Pattern)
deriving DecidableEq

namespace Pattern

/-- The patterns that follow one another in a sequence. -/
def parts : Pattern → List Pattern
  | .empty => []
  | .seq first second => first.parts ++ second.parts
  | p => [p]

/-- The patterns between which an alternation chooses. -/
def branches : Pattern → List Pattern
  | .alt first second => first.branches ++ second.branches
  | p => [p]

/-- Whether every match has a character. -/
def readsSomething : Pattern → Bool
  | .empty => false
  | .one _ => true
  | .anchor _ => false
  | .seq first second => first.readsSomething || second.readsSomething
  | .alt first second => first.readsSomething && second.readsSomething
  | .rep body least _ _ => 0 < least && body.readsSomething
  | .group _ body => body.readsSomething

/-- Whether no match has a character. -/
def readsNothing : Pattern → Bool
  | .empty => true
  | .one _ => false
  | .anchor _ => true
  | .seq first second => first.readsNothing && second.readsNothing
  | .alt first second => first.readsNothing && second.readsNothing
  | .rep body _ extra _ => extra.isSome && body.readsNothing
  | .group _ body => body.readsNothing

/-- Whether the pattern can match at the start of a text only. -/
def atStartOnly : Pattern → Bool
  | .anchor a => a == .textStart
  | .seq first second => first.atStartOnly || second.atStartOnly
  | .alt first second => first.atStartOnly && second.atStartOnly
  | .rep body least _ _ => 0 < least && body.atStartOnly
  | .group _ body => body.atStartOnly
  | _ => false

end Pattern

end NodeScript
