import NodeScript.Decimal.Binary64

/-!
# Reading numbers

The spellings of numbers: whole numbers of 64 bits with and without sign, and floating-point
numbers. No spelling has blanks or digit separators in it.
-/

namespace NodeScript

namespace Decimal

def digitValue (c : Char) : Nat :=
  c.toNat - '0'.toNat

def ofDigits (cs : List Char) : Nat :=
  cs.foldl (fun n c => 10 * n + digitValue c) 0

/-- The digits at the start of a text, and what follows them. -/
def spanDigits (cs : List Char) : List Char × List Char :=
  cs.span Char.isDigit

/-- The sign at the start of a text, whether it is a minus, and what follows it. -/
def takeSign : List Char → Bool × List Char
  | '+' :: rest => (false, rest)
  | '-' :: rest => (true, rest)
  | cs => (false, cs)

/-- A text of one digit or more. -/
def readNat? (cs : List Char) : Option Nat :=
  if !cs.isEmpty && cs.all Char.isDigit then some (ofDigits cs) else none

/-- A whole number with an optional sign. -/
def readInt? (cs : List Char) : Option Int :=
  let (negative, rest) := takeSign cs
  (readNat? rest).map fun n => if negative then -(n : Int) else n

/-- The whole number, when it fits into 64 bits with a sign. -/
def toInt64? (i : Int) : Option Int64 :=
  if Int64.minValue.toInt ≤ i ∧ i ≤ Int64.maxValue.toInt then some (Int64.ofInt i) else none

/-- The whole number, when it fits into 64 bits without a sign. -/
def toUInt64? (i : Int) : Option UInt64 :=
  if 0 ≤ i ∧ i < UInt64.size then some (UInt64.ofNat i.toNat) else none

/-- A signed whole number of 64 bits. -/
def readInt64? (s : String) : Option Int64 :=
  (readInt? s.toList).bind toInt64?

/-- A whole number of 64 bits, without sign or with a plus. -/
def readUInt64? (s : String) : Option UInt64 :=
  let digits := match s.toList with
    | '+' :: rest => rest
    | cs => cs
  (readNat? digits).bind fun n => toUInt64? n

/-- The exponent at the end of a number: nothing, or `e`, an optional sign and digits. -/
def readExponent? : List Char → Option Int
  | [] => some 0
  | c :: rest => if c = 'e' ∨ c = 'E' then readInt? rest else none

/-- A number without sign: digits with a point among them or at either end, then the
exponent. -/
def readUnsigned? (negative : Bool) (cs : List Char) : Option Binary64 :=
  let (whole, rest) := spanDigits cs
  let (fraction, rest) := match rest with
    | '.' :: rest => spanDigits rest
    | rest => ([], rest)
  if whole.isEmpty && fraction.isEmpty then none
  else (readExponent? rest).map fun e =>
    Binary64.ofDecimal negative (ofDigits (whole ++ fraction)) (e - fraction.length)

def lowercase (cs : List Char) : List Char :=
  cs.map Char.toLower

end Decimal

/-- A floating-point number: an optional sign, then `inf`, `infinity` or `nan` in any case of
letters, or a number. -/
def Binary64.read? (s : String) : Option Binary64 :=
  let (negative, rest) := Decimal.takeSign s.toList
  let word := Decimal.lowercase rest
  if word = "inf".toList ∨ word = "infinity".toList then some (.infinite negative)
  else if word = "nan".toList then some .nan
  else Decimal.readUnsigned? negative rest

end NodeScript
