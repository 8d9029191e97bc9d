import NodeScript.Pattern.Backtracking
import NodeScript.Pattern.Program

/-!
# Finding matches

A pattern made ready to look for its first match in a text.
-/

namespace NodeScript

/-- How the matches of a pattern are found: of a steady one by going back, of any other by its
program. -/
inductive Finder where
  | steady (p : Pattern)
  | program (p : Pattern) (code : Program)

namespace Finder

def ofPattern (p : Pattern) : Finder :=
  if p.isSteady then .steady p else .program p (.ofPattern p)

/-- The pattern that is looked for. -/
def pattern : Finder → Pattern
  | .steady p => p
  | .program p _ => p

def matchAt? : Finder → Cursor → Option Nat
  | .steady p, c => p.matchAt? c
  | .program _ code, c => code.matchAt? c

/-- The first place from `offset` on where the pattern matches, with the end of the match. -/
def searchFrom (f : Finder) (before : Option Char) (offset : Nat) :
    List Char → Option (Nat × Nat)
  | [] => (f.matchAt? ⟨before, [], offset⟩).map (offset, ·)
  | x :: rest =>
    match f.matchAt? ⟨before, x :: rest, offset⟩ with
    | some stop => some (offset, stop)
    | none => searchFrom f (some x) (offset + 1) rest

/-- Where the first match in a text begins and ends, in characters. -/
def find? (f : Finder) (text : List Char) : Option (Nat × Nat) :=
  if f.pattern.atStartOnly then (f.matchAt? (.start text)).map (0, ·)
  else f.searchFrom none 0 text

/-- Whether the pattern matches somewhere in a text. -/
def matchesIn (f : Finder) (text : List Char) : Bool :=
  (f.find? text).isSome

end Finder

end NodeScript
