import NodeScript.Token.Basic

/-!
# Diagnostics of a resolution

A failed attempt says what it wanted and where. Of the failures that a resolution went through, the
furthest position and the latest few are kept.
-/

namespace NodeScript

/-- A failed attempt to match something at a position among the tokens. -/
structure Failure where
  /-- The rule, literal or terminal that failed. -/
  expected : String
  position : Nat
  /-- The text of the token there, nothing at the end of the input. -/
  found : Option String
  /-- A preview of the tokens from there on. -/
  remaining : String
deriving DecidableEq

namespace Failure

def message (f : Failure) : String :=
  "expected " ++ f.expected ++ " at token " ++ toString f.position ++ ", found " ++
    f.found.getD Token.endOfInput

def traceLine (f : Failure) : String :=
  "  " ++ f.message ++ " (next: " ++ f.remaining ++ ")\n"

end Failure

/-- What is kept of the failures of a resolution. -/
structure Diagnostics where
  /-- The furthest position of a failure. -/
  furthest : Nat
  /-- The latest failures, latest first. -/
  trace : List Failure
deriving DecidableEq

namespace Diagnostics

def traceLimit : Nat := 32

def empty : Diagnostics :=
  ⟨0, []⟩

def record (d : Diagnostics) (f : Failure) : Diagnostics :=
  ⟨max d.furthest f.position, (f :: d.trace).take traceLimit⟩

/-- The trace with a line for each failure. -/
def renderTrace (trace : List Failure) : String :=
  String.join (trace.map Failure.traceLine)

end Diagnostics

end NodeScript
