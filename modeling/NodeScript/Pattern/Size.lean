import NodeScript.Pattern.Basic

/-!
# Sizes of patterns

A repetition with a count stands for so many copies of its body, so a short pattern can be very
large. Patterns that take too much room are refused.
-/

namespace NodeScript

/-- The room of one step of a pattern, in bytes. -/
def Pattern.stepSize : Nat := 32

/-- About how much room a set takes in a pattern, in bytes: a step for each byte of a single
character, and more for a class the more its members are scattered. -/
def CharSet.size : CharSet → Nat
  | .empty => Pattern.stepSize
  | .single c => Pattern.stepSize * c.utf8Size
  | .range low high => if high.toNat < 0x80 then 2 * Pattern.stepSize + 8 else
    Pattern.stepSize * (low.utf8Size + high.utf8Size)
  | .digit => 3000
  | .blank => 500
  | .word => 50000
  | .union a b => a.size + b.size
  | .inter a b => min a.size b.size
  | .diff a b => a.size + b.size
  | .symmDiff a b => a.size + b.size
  | .compl a => 400 + a.size
  | .anyCase a => 2 * a.size

namespace Pattern

/-- About how much room a pattern takes, in bytes. -/
def size : Pattern → Nat
  | .empty => 0
  | .one set => set.size
  | .anchor _ => stepSize
  | .seq first second => first.size + second.size
  | .alt first second => first.size + second.size + stepSize
  | .rep body least (some extra) _ => (least + extra) * body.size + extra * stepSize
  | .rep body least none _ => (max least 1) * body.size + stepSize
  | .group _ body => body.size + 2 * stepSize

/-- The room that a pattern may take, ten mebibytes. -/
def maxSize : Nat := 0xa00000

end Pattern

end NodeScript
