import NodeScript.Text.Blank
import NodeScript.Text.CaseFold
import NodeScript.Text.DecimalDigit
import NodeScript.Text.WordChar

/-!
# Sets of characters

What one position of a pattern accepts, as an expression over single characters, ranges and the
named classes.
-/

namespace NodeScript

inductive CharSet where
  | empty
  | single (c : Char)
  | range (low high : Char)
  | digit
  | blank
  | word
  | union (a b : CharSet)
  | inter (a b : CharSet)
  | diff (a b : CharSet)
  | symmDiff (a b : CharSet)
  | compl (a : CharSet)
  /-- The characters that differ from a member in case only. -/
  | anyCase (a : CharSet)
deriving DecidableEq

namespace CharSet

/-- Whether `c` is a member. -/
def accepts : CharSet → Char → Bool
  | .empty, _ => false
  | .single d, c => c == d
  | .range low high, c => low ≤ c && c ≤ high
  | .digit, c => Text.isDecimalDigit c
  | .blank, c => Text.isBlank c
  | .word, c => Text.isWordChar c
  | .union a b, c => a.accepts c || b.accepts c
  | .inter a b, c => a.accepts c && b.accepts c
  | .diff a b, c => a.accepts c && !b.accepts c
  | .symmDiff a b, c => a.accepts c ^^ b.accepts c
  | .compl a, c => !a.accepts c
  | .anyCase a, c => a.accepts c || (Text.caseVariants c).any a.accepts

/-- Every character but the line feed. -/
def notLineFeed : CharSet :=
  .compl (.single '\n')

def any : CharSet :=
  .compl .empty

def ofList (sets : List CharSet) : CharSet :=
  match sets with
  | [] => .empty
  | [a] => a
  | a :: rest => .union a (ofList rest)

/-- The union of the ranges between the given characters. -/
def ofRanges (ranges : List (Char × Char)) : CharSet :=
  ofList (ranges.map fun (low, high) => .range low high)

/-- The ASCII class of the given name. -/
def ascii? : String → Option CharSet
  | "alnum" => some (ofRanges [('0', '9'), ('A', 'Z'), ('a', 'z')])
  | "alpha" => some (ofRanges [('A', 'Z'), ('a', 'z')])
  | "ascii" => some (.range '\x00' '\x7f')
  | "blank" => some (ofRanges [('\t', '\t'), (' ', ' ')])
  | "cntrl" => some (ofRanges [('\x00', '\x1f'), ('\x7f', '\x7f')])
  | "digit" => some (.range '0' '9')
  | "graph" => some (.range '!' '~')
  | "lower" => some (.range 'a' 'z')
  | "print" => some (.range ' ' '~')
  | "punct" => some (ofRanges [('!', '/'), (':', '@'), ('[', '\x60'), ('\x7b', '~')])
  | "space" => some (ofRanges [('\t', '\r'), (' ', ' ')])
  | "upper" => some (.range 'A' 'Z')
  | "word" => some (ofRanges [('0', '9'), ('A', 'Z'), ('_', '_'), ('a', 'z')])
  | "xdigit" => some (ofRanges [('0', '9'), ('A', 'F'), ('a', 'f')])
  | _ => none

end CharSet

end NodeScript
