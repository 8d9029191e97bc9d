import NodeScript.Decimal.Binary64

/-!
# Shortest decimals

The fewest decimal digits that read back as a given number, and of those the nearest to it.
For each count of digits the two neighbours of the number on that decimal grid are tried, and a
neighbour is taken only after it has been read back.
-/

namespace NodeScript

/-- The decimal number `digits · 10 ^ exponent`. -/
structure Decimal where
  digits : Nat
  exponent : Int
deriving DecidableEq

/-- Which of two decimals that are equally near is taken. -/
inductive Halfway where
  | up
  | even
deriving DecidableEq

namespace Decimal

/-- The power of ten of the leading digit. -/
def leading (d : Decimal) : Int :=
  d.exponent + Binary64.decimalLength d.digits - 1

/-- How many tens, at most `limit`, bring `n` up to `d`. -/
def tensUpTo (d : Nat) : Nat → Nat → Nat
  | 0, _ => 0
  | limit + 1, n => if d ≤ n then 0 else tensUpTo d limit (10 * n) + 1

/-- The power of ten of the leading digit of `n` units. -/
def leadingOfUnits (n : Nat) : Int :=
  if Binary64.unitsPerOne ≤ n then Binary64.decimalLength (n / Binary64.unitsPerOne) - 1
  else -(tensUpTo Binary64.unitsPerOne 400 n)

def stripZeros : Nat → Decimal → Decimal
  | 0, d => d
  | limit + 1, d =>
    if d.digits ≠ 0 ∧ d.digits % 10 = 0 then stripZeros limit ⟨d.digits / 10, d.exponent + 1⟩
    else d

/-- Of the two neighbours of `x`, which is `n` units, on the grid of `10 ^ exponent`, the
nearest that reads back as `x`. -/
def neighbour? (halfway : Halfway) (x : Binary64) (n : Nat) (exponent : Int) : Option Decimal :=
  let num := if 0 ≤ exponent then n else n * Nat.pow 10 (-exponent).toNat
  let den := Binary64.unitsPerOne * (if 0 ≤ exponent then Nat.pow 10 exponent.toNat else 1)
  let low := num / den
  let twice := 2 * (num % den)
  let nearest :=
    if twice < den then low
    else if den < twice then low + 1
    else match halfway with
      | .up => low + 1
      | .even => low + low % 2
  let other := if nearest = low then low + 1 else low
  if Binary64.ofDecimal false nearest exponent = x then some ⟨nearest, exponent⟩
  else if Binary64.ofDecimal false other exponent = x then some ⟨other, exponent⟩
  else none

/-- The first decimal found when the count of digits grows from `count` over `tries` values. -/
def search (halfway : Halfway) (x : Binary64) (n : Nat) (leading : Int) :
    (tries : Nat) → (count : Int) → Option Decimal
  | 0, _ => none
  | tries + 1, count =>
    match neighbour? halfway x n (leading - count + 1) with
    | some d => some d
    | none => search halfway x n leading tries (count + 1)

/-- The shortest decimal of the positive number of the given significand and scale. Seventeen
digits always suffice; the exact expansion stands behind them. -/
def shortest (halfway : Halfway) (significand scale : Nat)
    (canonical : Binary64.IsCanonical significand scale) : Decimal :=
  let n := Binary64.units significand scale
  match search halfway (.finite false significand scale canonical) n (leadingOfUnits n) 17 1 with
  | some d => stripZeros 18 d
  | none => ⟨n * Nat.pow 5 1074, -1074⟩

end Decimal

end NodeScript
