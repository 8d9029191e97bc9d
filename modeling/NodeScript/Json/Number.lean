import NodeScript.Decimal.Reader
import NodeScript.Json.Basic

/-!
# Numbers in JSON

The digits of a number are gathered into a word of 64 bits. Digits that no longer fit are dropped,
those before the point with their places kept. A number with a point or an exponent, or one that is
too large, is the word multiplied or divided by a power of ten, each step rounded.
-/

namespace NodeScript.Json.Number

/-- Adds digits to a word while it fits into 64 bits; the answer has the word and the digits
that were not added. -/
def gather (word : Nat) : List Char → Nat × List Char
  | [] => (word, [])
  | c :: rest =>
    let next := 10 * word + Decimal.digitValue c
    if next < UInt64.size then gather next rest else (word, c :: rest)

/-- The greatest power of ten that one step multiplies or divides by. -/
def greatestPower : Nat := 308

/-- The floating-point number nearest to a power of ten. -/
def powerOfTen (n : Nat) : Binary64 :=
  .ofDecimal false 1 n

/-- A number divided or multiplied by a power of ten, in at most `steps` steps; nothing when it
becomes infinite. -/
def shift? : (steps : Nat) → Binary64 → (exponent : Int) → Option Binary64
  | 0, x, _ => some x
  | steps + 1, x, exponent =>
    if exponent.natAbs ≤ greatestPower then
      let y := if 0 ≤ exponent then x.mul (powerOfTen exponent.natAbs)
        else x.div (powerOfTen exponent.natAbs)
      if y.isFinite then some y else none
    else if x = .zero false then some x
    else if 0 ≤ exponent then none
    else shift? steps (x.div (powerOfTen greatestPower)) (exponent + greatestPower)

/-- The word times a power of ten as a floating-point number. Three steps bring every word to
zero. -/
def ofParts (negative : Bool) (word : Nat) (exponent : Int) : Json :=
  match shift? 4 (.ofRatio false word 1) exponent with
  | some x => .float (x.withSign negative)
  | none => .void

/-- The exponents that are told apart; beyond them a number is zero or out of range. -/
def exponentLimit : Nat := 0x80000000

/-- The value of a number with the given digits before and after the point and the given exponent,
where a number that is written without point and exponent has neither. -/
def value (negative : Bool) (whole : List Char) (fraction : Option (List Char))
    (exponent : Option Int) : Json :=
  let (word, dropped) := gather 0 whole
  match fraction, exponent with
  | none, none =>
    if !dropped.isEmpty then ofParts negative word dropped.length
    else if !negative then .int word
    else if 0 < word ∧ Int64.minValue.toInt ≤ -word then .int (-word)
    else .float ((Binary64.ofRatio false word 1).withSign true)
  | _, _ =>
    let digits := fraction.getD []
    let (word, unused) := gather word digits
    let places : Int := dropped.length - (digits.length - unused.length : Nat)
    match exponent with
    | none => ofParts negative word places
    | some e =>
      if e.natAbs < exponentLimit then ofParts negative word (places + e)
      else if word = 0 ∨ e < 0 then .float (.zero negative)
      else .void

/-- The digits before the point: a zero alone, or digits that do not begin with a zero. -/
def readWhole? (cs : List Char) : Option (List Char × List Char) :=
  match Decimal.spanDigits cs with
  | ([], _) => none
  | ('0' :: _ :: _, _) => none
  | (digits, rest) => some (digits, rest)

/-- The point and the digits after it, if a point comes next. -/
def readFraction? : List Char → Option (Option (List Char) × List Char)
  | '.' :: cs =>
    match Decimal.spanDigits cs with
    | ([], _) => none
    | (digits, rest) => some (some digits, rest)
  | cs => some (none, cs)

/-- The exponent, if one comes next. -/
def readExponent? (cs : List Char) : Option (Option Int × List Char) :=
  match cs with
  | c :: after =>
    if c = 'e' ∨ c = 'E' then
      let (negative, after) := Decimal.takeSign after
      match Decimal.spanDigits after with
      | ([], _) => none
      | (digits, rest) =>
        let n : Int := Decimal.ofDigits digits
        some (some (if negative then -n else n), rest)
    else some (none, cs)
  | [] => some (none, [])

/-- A number, and what follows it. -/
def read? (cs : List Char) : Option (Json × List Char) := do
  let (negative, cs) := match cs with
    | '-' :: rest => (true, rest)
    | cs => (false, cs)
  let (whole, cs) ← readWhole? cs
  let (fraction, cs) ← readFraction? cs
  let (exponent, cs) ← readExponent? cs
  some (value negative whole fraction exponent, cs)

end NodeScript.Json.Number
