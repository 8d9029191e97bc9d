/-!
# Ranges of code points

A property of characters beyond ASCII is kept as closed intervals of code points.
-/

namespace NodeScript.Text

/-- Whether the code point of `c` lies in one of the closed intervals. -/
def inRanges (ranges : Array (Nat × Nat)) (c : Char) : Bool :=
  ranges.any fun (low, high) => low ≤ c.toNat && c.toNat ≤ high

end NodeScript.Text
