import NodeScript.Decimal.Shortest

/-!
# Layout of numbers

How the shortest decimal of a number is laid out: positionally, always with a fraction, while
its leading digit stands near the point, and with an exponent otherwise.
-/

namespace NodeScript

/-- The decisions of a format for finite numbers. -/
structure Layout where
  /-- The least power of ten of a leading digit that is laid out positionally. -/
  least : Int
  /-- The greatest such power. -/
  greatest : Int
  /-- Whether a positive exponent has its sign. -/
  plus : Bool
  /-- Which of two equally near decimals is taken. -/
  halfway : Halfway

namespace Layout

/-- Scripts and messages: positional from `0.0001` below `10 ^ 16`, a positive exponent without
sign, and a half goes up. -/
def script : Layout := ⟨-4, 15, false, .up⟩

/-- JSON: positional from `0.00001` below `10 ^ 16`, a positive exponent with its sign, and a
half goes to the even digit. -/
def json : Layout := ⟨-5, 15, true, .even⟩

/-- Decimal digits written positionally, the first of them at the given power of ten. -/
def positional (digits : List Char) (leading : Int) : List Char :=
  if leading < 0 then
    ['0', '.'] ++ List.replicate (-leading - 1).toNat '0' ++ digits
  else
    let whole := leading.toNat + 1
    if digits.length ≤ whole then
      digits ++ List.replicate (whole - digits.length) '0' ++ ['.', '0']
    else digits.take whole ++ ['.'] ++ digits.drop whole

def exponential (plus : Bool) (digits : List Char) (leading : Int) : List Char :=
  digits.take 1 ++ (if digits.length ≤ 1 then [] else '.' :: digits.drop 1) ++ ['e'] ++
    (if leading < 0 then ['-'] else if plus then ['+'] else []) ++
    Nat.toDigits 10 leading.natAbs

/-- A decimal other than zero in this layout. -/
def decimal (layout : Layout) (d : Decimal) : List Char :=
  let digits := Nat.toDigits 10 d.digits
  if layout.least ≤ d.leading ∧ d.leading ≤ layout.greatest then positional digits d.leading
  else exponential layout.plus digits d.leading

/-- The sign and digits of a finite number. -/
def finite (layout : Layout) (negative : Bool) (significand scale : Nat)
    (canonical : Binary64.IsCanonical significand scale) : List Char :=
  (if negative then ['-'] else []) ++
    if significand = 0 then ['0', '.', '0']
    else layout.decimal (Decimal.shortest layout.halfway significand scale canonical)

end Layout

/-- A number as scripts and messages show it. -/
def Binary64.render : Binary64 → String
  | .nan => "NaN"
  | .infinite negative => if negative then "-inf" else "inf"
  | .finite negative significand scale canonical =>
    String.ofList (Layout.script.finite negative significand scale canonical)

end NodeScript
