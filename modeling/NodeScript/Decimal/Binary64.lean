/-!
# Binary floating-point numbers of 64 bits

A finite number is a sign and a whole multiple `significand · 2 ^ scale` of the least positive
number, `2 ^ -1074`. Every number has one such form, so equality of forms is identity; the
numeric equality, under which the two zeros are equal and `nan` differs from itself, is
`Binary64.numEq`. Results are rounded to the nearest number, a half to the even significand.
-/

namespace NodeScript

/-- The significands and scales that name a finite number, each number once: significands have 53
bits, and fewer only at the least scale. -/
abbrev Binary64.IsCanonical (significand scale : Nat) : Prop :=
  significand < 0x20000000000000 ∧ scale ≤ 2045 ∧ (0x10000000000000 ≤ significand ∨ scale = 0)

inductive Binary64 where
  | nan
  | infinite (negative : Bool)
  | finite (negative : Bool) (significand scale : Nat)
      (canonical : Binary64.IsCanonical significand scale)
deriving DecidableEq

namespace Binary64

def zero (negative : Bool) : Binary64 :=
  .finite negative 0 0 (by decide)

instance : Inhabited Binary64 := ⟨zero false⟩

/-- The least positive number is one over this. -/
@[irreducible] def unitsPerOne : Nat := Nat.pow 2 1074

/-- The quotient rounded to the nearest whole number, a half to the even one. -/
def roundDiv (n d : Nat) : Nat :=
  if 2 * (n % d) < d ∨ (2 * (n % d) = d ∧ n / d % 2 = 0) then n / d else n / d + 1

/-- The number of a rounded significand; one that rounding carried to `2 ^ 53` moves to the
next scale, and past the last scale the number is infinite. -/
def ofRounded (negative : Bool) (significand scale : Nat) : Binary64 :=
  if h : IsCanonical significand scale then .finite negative significand scale h
  else if h : significand = 0x20000000000000 ∧ scale < 2045 then
    .finite negative 0x10000000000000 (scale + 1) ⟨by decide, by omega, .inl (Nat.le_refl _)⟩
  else .infinite negative

/-- The number nearest to `n / d` of the least positive number. -/
def ofUnits (negative : Bool) (n d : Nat) : Binary64 :=
  let scale := (n / d).log2 - 52
  ofRounded negative (roundDiv n (d * Nat.pow 2 scale)) scale

/-- The number nearest to the quotient `n / d`. -/
def ofRatio (negative : Bool) (n d : Nat) : Binary64 :=
  ofUnits negative (n * unitsPerOne) d

def ofInt (i : Int) : Binary64 :=
  ofRatio (i < 0) i.natAbs 1

def decimalLength (n : Nat) : Nat :=
  (Nat.toDigits 10 n).length

/-- The number nearest to `digits · 10 ^ exponent`. What is at least `10 ^ 310` is infinite and
what is less than `10 ^ -330` is zero, so no power beyond those is ever formed. -/
def ofDecimal (negative : Bool) (digits : Nat) (exponent : Int) : Binary64 :=
  if digits = 0 then zero negative
  else if exponent + decimalLength digits > 310 then .infinite negative
  else if exponent + decimalLength digits < -330 then zero negative
  else if 0 ≤ exponent then ofRatio negative (digits * Nat.pow 10 exponent.toNat) 1
  else ofRatio negative digits (Nat.pow 10 (-exponent).toNat)

/-- Equality as numbers: the zeros are equal, and `nan` equals nothing. -/
def numEq : Binary64 → Binary64 → Bool
  | .nan, _ => false
  | _, .nan => false
  | .infinite n₁, .infinite n₂ => n₁ == n₂
  | .finite n₁ m₁ s₁ _, .finite n₂ m₂ s₂ _ =>
    (m₁ == 0 && m₂ == 0) || (n₁ == n₂ && m₁ == m₂ && s₁ == s₂)
  | _, _ => false

/-- The size of a finite number as a multiple of the least positive number. -/
def units (significand scale : Nat) : Nat :=
  significand * Nat.pow 2 scale

def mul : Binary64 → Binary64 → Binary64
  | .nan, _ => .nan
  | _, .nan => .nan
  | .infinite n₁, .infinite n₂ => .infinite (n₁ ^^ n₂)
  | .infinite n₁, .finite n₂ m₂ _ _ => if m₂ = 0 then .nan else .infinite (n₁ ^^ n₂)
  | .finite n₁ m₁ _ _, .infinite n₂ => if m₁ = 0 then .nan else .infinite (n₁ ^^ n₂)
  | .finite n₁ m₁ s₁ _, .finite n₂ m₂ s₂ _ =>
    ofUnits (n₁ ^^ n₂) (units m₁ s₁ * units m₂ s₂) unitsPerOne

def div : Binary64 → Binary64 → Binary64
  | .nan, _ => .nan
  | _, .nan => .nan
  | .infinite _, .infinite _ => .nan
  | .infinite n₁, .finite n₂ _ _ _ => .infinite (n₁ ^^ n₂)
  | .finite n₁ _ _ _, .infinite n₂ => zero (n₁ ^^ n₂)
  | .finite n₁ m₁ s₁ _, .finite n₂ m₂ s₂ _ =>
    if m₂ = 0 then (if m₁ = 0 then .nan else .infinite (n₁ ^^ n₂))
    else ofUnits (n₁ ^^ n₂) (units m₁ s₁ * unitsPerOne) (units m₂ s₂)

/-- The number with the sign turned when `negative`. -/
def withSign (negative : Bool) : Binary64 → Binary64
  | .nan => .nan
  | .infinite n => .infinite (n ^^ negative)
  | .finite n m s h => .finite (n ^^ negative) m s h

def isFinite : Binary64 → Bool
  | .finite .. => true
  | _ => false

/-- The value of a number that is whole. -/
def toInt? : Binary64 → Option Int
  | .finite negative significand scale _ =>
    let n := units significand scale
    if n % unitsPerOne = 0 then
      some (if negative then -((n / unitsPerOne : Nat) : Int) else (n / unitsPerOne : Nat))
    else none
  | _ => none

end Binary64

end NodeScript
