import Mathlib.Algebra.Group.Int.Defs
import Mathlib.Algebra.Group.Nat.Defs
import NodeScript.Decimal.Shortest

/-!
# Exact decimals

Rounding does nothing to a number that is there, tens can move between the digits and the exponent
of a decimal, and so the shortest decimal of a number reads back as that number.
-/

namespace NodeScript

namespace Binary64

/-! ## Rounding -/

theorem roundDiv_scale (n d : Nat) {k : Nat} (hk : 0 < k) :
    roundDiv (n * k) (d * k) = roundDiv n d := by
  have h₁ : 2 * (n % d * k) < d * k ↔ 2 * (n % d) < d := by
    rw [← Nat.mul_assoc, Nat.mul_lt_mul_right hk]
  have h₂ : 2 * (n % d * k) = d * k ↔ 2 * (n % d) = d := by
    rw [← Nat.mul_assoc, Nat.mul_left_inj (by omega)]
  simp only [roundDiv, Nat.mul_mod_mul_right, Nat.mul_div_mul_right _ _ hk, h₁, h₂]

theorem roundDiv_mul (q : Nat) {d : Nat} (hd : 0 < d) : roundDiv (q * d) d = q := by
  simp [roundDiv, Nat.mul_div_cancel _ hd, hd]

theorem ofUnits_scale (negative : Bool) (n d : Nat) {k : Nat} (hk : 0 < k) :
    ofUnits negative (n * k) (d * k) = ofUnits negative n d := by
  simp only [ofUnits, Nat.mul_div_mul_right _ _ hk, Nat.mul_right_comm d k, roundDiv_scale _ _ hk]

theorem log2_units {m s : Nat} (h : IsCanonical m s) : (units m s).log2 - 52 = s := by
  obtain ⟨hm, -, hs⟩ := h
  rcases Nat.eq_zero_or_pos s with rfl | hpos
  · have : units m 0 = m := Nat.mul_one m
    rw [this]
    rcases Nat.eq_zero_or_pos m with rfl | hm0
    · decide
    · have : m.log2 < 53 := (Nat.log2_lt (by omega)).2 hm
      omega
  · have hm' : 0x10000000000000 ≤ m := hs.resolve_right (by omega)
    have hne : units m s ≠ 0 := Nat.mul_ne_zero (by omega) (Nat.ne_of_gt (Nat.two_pow_pos s))
    have hp : units m s = m * 2 ^ s := rfl
    have low : 52 + s ≤ (units m s).log2 := by
      rw [Nat.le_log2 hne, hp, Nat.pow_add]
      exact Nat.mul_le_mul_right _ hm'
    have high : (units m s).log2 < 53 + s := by
      rw [Nat.log2_lt hne, hp, Nat.pow_add]
      exact Nat.mul_lt_mul_of_pos_right hm (Nat.two_pow_pos s)
    omega

/-- A number that is there is not rounded. -/
theorem ofUnits_units (negative : Bool) {m s : Nat} (h : IsCanonical m s) :
    ofUnits negative (units m s) 1 = .finite negative m s h := by
  have hr : roundDiv (units m s) (Nat.pow 2 s) = m := roundDiv_mul m (Nat.two_pow_pos s)
  simp only [ofUnits, Nat.div_one, log2_units h, Nat.one_mul, hr, ofRounded, dif_pos h]

/-! ## Signs -/

theorem ofRounded_withSign (negative : Bool) (m s : Nat) :
    ofRounded negative m s = (ofRounded false m s).withSign negative := by
  unfold ofRounded
  split
  · simp [withSign]
  · split <;> simp [withSign]

theorem ofUnits_withSign (negative : Bool) (n d : Nat) :
    ofUnits negative n d = (ofUnits false n d).withSign negative :=
  ofRounded_withSign _ _ _

theorem ofRatio_withSign (negative : Bool) (n d : Nat) :
    ofRatio negative n d = (ofRatio false n d).withSign negative := by
  unfold ofRatio
  rw [ofUnits_withSign]

theorem ofDecimal_withSign (negative : Bool) (d : Nat) (e : Int) :
    ofDecimal negative d e = (ofDecimal false d e).withSign negative := by
  unfold ofDecimal
  split
  · simp [zero, withSign]
  · split
    · simp [withSign]
    · split
      · simp [zero, withSign]
      · split <;> rw [ofRatio_withSign]

/-- A decimal that reads as a positive number reads as the same number with the other sign. -/
theorem ofDecimal_of_false {d : Nat} {e : Int} {m s : Nat} {h : IsCanonical m s}
    (hd : ofDecimal false d e = .finite false m s h) (negative : Bool) :
    ofDecimal negative d e = .finite negative m s h := by
  rw [ofDecimal_withSign, hd]
  simp [withSign]

/-! ## Tens -/

theorem decimalLength_ten {d : Nat} (hd : 0 < d) :
    decimalLength (10 * d) = decimalLength d + 1 := by
  have := Nat.toDigits_append_toDigits (b := 10) (by decide) hd (d := 0) (by decide)
  rw [decimalLength, decimalLength, ← Nat.add_zero (10 * d), ← this]
  simp

theorem ofRatio_ten (negative : Bool) (n d : Nat) :
    ofRatio negative (10 * n) (10 * d) = ofRatio negative n d := by
  unfold ofRatio
  rw [Nat.mul_comm 10, Nat.mul_comm 10, Nat.mul_right_comm, ofUnits_scale _ _ _ (by decide)]

/-- A ten can move from the digits to the exponent. -/
theorem ofDecimal_ten (negative : Bool) (d : Nat) (e : Int) :
    ofDecimal negative (10 * d) e = ofDecimal negative d (e + 1) := by
  rcases Nat.eq_zero_or_pos d with rfl | hd
  · simp [ofDecimal]
  · have hl : e + decimalLength (10 * d) = e + 1 + decimalLength d := by
      rw [decimalLength_ten hd]
      omega
    have hne : 10 * d ≠ 0 := by omega
    have hne' : d ≠ 0 := by omega
    simp only [ofDecimal, hl, hne, hne', if_false]
    split
    · rfl
    · split
      · rfl
      · rcases Int.lt_trichotomy e (-1) with he | rfl | he
        · rw [if_neg (by omega), if_neg (by omega)]
          obtain ⟨k, hk⟩ : ∃ k, (-e).toNat = k + 1 := ⟨(-(e + 1)).toNat, by omega⟩
          have hk' : (-(e + 1)).toNat = k := by omega
          have hp : Nat.pow 10 (k + 1) = 10 * Nat.pow 10 k := Nat.pow_succ'
          rw [hk, hk', hp, ofRatio_ten]
        · have h₁ : Nat.pow 10 (-(-1 : Int)).toNat = 10 * 1 := rfl
          have h₂ : d * Nat.pow 10 ((-1 : Int) + 1).toNat = d := Nat.mul_one d
          rw [if_neg (by decide), if_pos (by decide), h₁, h₂, ofRatio_ten]
        · rw [if_pos (by omega), if_pos (by omega)]
          obtain ⟨k, hk⟩ : ∃ k, e.toNat = k := ⟨_, rfl⟩
          have hk' : (e + 1).toNat = k + 1 := by omega
          have hp : Nat.pow 10 (k + 1) = 10 * Nat.pow 10 k := Nat.pow_succ'
          rw [hk, hk', hp, Nat.mul_left_comm, Nat.mul_assoc]

theorem ofDecimal_tens (negative : Bool) (d k : Nat) (e : Int) :
    ofDecimal negative (10 ^ k * d) e = ofDecimal negative d (e + k) := by
  induction k generalizing e with
  | zero => simp
  | succ k ih =>
      rw [Nat.pow_succ', Nat.mul_assoc, ofDecimal_ten, ih]
      congr 1
      omega

end Binary64

namespace Decimal

open Binary64

theorem ofDecimal_stripZeros (negative : Bool) (limit : Nat) (d : Decimal) :
    ofDecimal negative (stripZeros limit d).digits (stripZeros limit d).exponent =
      ofDecimal negative d.digits d.exponent := by
  induction limit generalizing d with
  | zero => rfl
  | succ limit ih =>
      rw [stripZeros]
      split
      · next h =>
          rw [ih, ← ofDecimal_ten]
          congr 1
          show 10 * (d.digits / 10) = d.digits
          omega
      · rfl

/-- A neighbour is taken only when it reads back. -/
theorem ofDecimal_of_neighbour? {halfway : Halfway} {x : Binary64} {n : Nat} {exponent : Int}
    {d : Decimal} (h : neighbour? halfway x n exponent = some d) :
    ofDecimal false d.digits d.exponent = x := by
  obtain ⟨a, b, hab⟩ : ∃ a b, neighbour? halfway x n exponent =
      if ofDecimal false a exponent = x then some ⟨a, exponent⟩
      else if ofDecimal false b exponent = x then some ⟨b, exponent⟩ else none := by
    unfold neighbour?
    exact ⟨_, _, rfl⟩
  rw [hab] at h
  by_cases ha : ofDecimal false a exponent = x
  · rw [if_pos ha] at h
    rw [← Option.some.inj h, ha]
  · rw [if_neg ha] at h
    by_cases hb : ofDecimal false b exponent = x
    · rw [if_pos hb] at h
      rw [← Option.some.inj h, hb]
    · rw [if_neg hb] at h
      cases h

theorem ofDecimal_of_search {halfway : Halfway} {x : Binary64} {n : Nat} {leading : Int}
    {tries : Nat} {count : Int} {d : Decimal}
    (h : search halfway x n leading tries count = some d) :
    ofDecimal false d.digits d.exponent = x := by
  induction tries generalizing count with
  | zero => cases h
  | succ tries ih =>
      rw [search] at h
      cases hn : neighbour? halfway x n (leading - count + 1) with
      | some d' =>
          simp only [hn, Option.some.injEq] at h
          exact h ▸ ofDecimal_of_neighbour? hn
      | none =>
          simp only [hn] at h
          exact ih h

theorem decimalLength_le_iff {n k : Nat} (hk : 0 < k) : decimalLength n ≤ k ↔ n < 10 ^ k :=
  Nat.length_toDigits_le_iff (by decide) hk

theorem units_lt {m s t : Nat} (h : IsCanonical m s) (hs : s ≤ t) : units m s < 2 ^ 53 * 2 ^ t :=
  Nat.lt_of_lt_of_le (Nat.mul_lt_mul_of_pos_right h.1 (Nat.two_pow_pos s))
    (Nat.mul_le_mul_left _ (Nat.pow_le_pow_right (by decide) hs))

/-- The exact expansion of a positive number reads back. -/
theorem ofDecimal_expansion {m s : Nat} (h : IsCanonical m s) (hm : m ≠ 0) :
    ofDecimal false (units m s * Nat.pow 5 1074) (-1074) = .finite false m s h := by
  have hu : 0 < units m s := Nat.mul_pos (Nat.pos_of_ne_zero hm) (Nat.two_pow_pos s)
  -- between these lengths a decimal is read as a ratio, neither as zero nor as infinite
  have low : 743 < decimalLength (units m s * Nat.pow 5 1074) := by
    refine Nat.lt_of_not_le fun hl => Nat.not_lt.2 ?_ ((decimalLength_le_iff (by decide)).1 hl)
    have hp : 10 ^ 743 ≤ Nat.pow 5 1074 := by decide +kernel
    exact Nat.le_trans hp (Nat.le_mul_of_pos_left _ hu)
  have high : decimalLength (units m s * Nat.pow 5 1074) ≤ 1384 := by
    rw [decimalLength_le_iff (by decide)]
    have hp : 2 ^ 53 * 2 ^ 2045 * Nat.pow 5 1074 < 10 ^ 1384 := by decide +kernel
    exact Nat.lt_of_le_of_lt (Nat.mul_le_mul_right _ (Nat.le_of_lt (units_lt h h.2.1))) hp
  have hne : units m s * Nat.pow 5 1074 ≠ 0 := Nat.mul_ne_zero (by omega) (by decide +kernel)
  rw [ofDecimal, if_neg hne, if_neg (by omega), if_neg (by omega), if_neg (by decide), ofRatio]
  have hp : Nat.pow 5 1074 * unitsPerOne = Nat.pow 10 (- -1074 : Int).toNat := by
    unfold unitsPerOne
    decide +kernel
  rw [Nat.mul_assoc, hp]
  have := ofUnits_scale false (units m s) 1 (k := Nat.pow 10 (- -1074 : Int).toNat)
    (by decide +kernel)
  rw [Nat.one_mul] at this
  rw [this, ofUnits_units]

/-- The shortest decimal of a number reads back as the number. -/
theorem ofDecimal_shortest (negative : Bool) (halfway : Halfway) {m s : Nat} (h : IsCanonical m s)
    (hm : m ≠ 0) : ofDecimal negative (shortest halfway m s h).digits
      (shortest halfway m s h).exponent = .finite negative m s h := by
  refine ofDecimal_of_false ?_ negative
  rw [shortest]
  cases hs : search halfway (.finite false m s h) (units m s) (leadingOfUnits (units m s)) 17 1 with
  | some d => simp only [ofDecimal_stripZeros, ofDecimal_of_search hs]
  | none => exact ofDecimal_expansion h hm

end Decimal

/-! ## Whole numbers -/

namespace Binary64

/-- A whole number that is a floating-point number. -/
def IsWhole (n : Nat) : Prop :=
  ∃ m s, IsCanonical m s ∧ units m s = n * unitsPerOne

theorem unitsPerOne_pos : 0 < unitsPerOne := by
  unfold unitsPerOne
  decide +kernel

theorem unitsPerOne_eq {k : Nat} (h : 1074 = k) : unitsPerOne = 2 ^ k := by
  subst h
  unfold unitsPerOne
  decide +kernel

theorem isWhole_of_pow {n k j : Nat} (hk : 2 ^ 52 ≤ n * 2 ^ k) (hk' : n * 2 ^ k < 2 ^ 53)
    (hj : k + j = 1074) : IsWhole n := by
  refine ⟨n * 2 ^ k, j, ⟨hk', by omega, .inl hk⟩, ?_⟩
  rw [unitsPerOne_eq hj.symm, Nat.pow_add, ← Nat.mul_assoc]
  rfl

/-- Whole numbers of 53 bits are floating-point numbers, and so is the next one. -/
theorem isWhole_of_le {n : Nat} (h : n ≤ 2 ^ 53) : IsWhole n := by
  rcases Nat.eq_zero_or_pos n with rfl | hn
  · exact ⟨0, 0, by decide, by rw [Nat.zero_mul]; rfl⟩
  · rcases Nat.eq_or_lt_of_le h with rfl | hlt
    · refine ⟨2 ^ 52, 1075, by decide, ?_⟩
      unfold unitsPerOne
      decide +kernel
    · have hl : n.log2 ≤ 52 := by
        have := (Nat.log2_lt (by omega)).2 hlt
        omega
      have low : 2 ^ n.log2 ≤ n := (Nat.le_log2 (by omega)).1 (Nat.le_refl _)
      have high : n < 2 ^ (n.log2 + 1) := (Nat.log2_lt (by omega)).1 (Nat.lt_succ_self _)
      refine isWhole_of_pow (k := 52 - n.log2) (j := 1022 + n.log2) ?_ ?_ (by omega)
      · calc 2 ^ 52 = 2 ^ n.log2 * 2 ^ (52 - n.log2) := by rw [← Nat.pow_add]; congr 1; omega
          _ ≤ n * 2 ^ (52 - n.log2) := Nat.mul_le_mul_right _ low
      · calc n * 2 ^ (52 - n.log2) < 2 ^ (n.log2 + 1) * 2 ^ (52 - n.log2) :=
              Nat.mul_lt_mul_of_pos_right high (Nat.two_pow_pos _)
          _ = 2 ^ 53 := by rw [← Nat.pow_add]; congr 1; omega

/-- A whole value of a number without a minus is a number as well. -/
theorem isWhole_of_toInt? {m s : Nat} {h : IsCanonical m s} {i : Int}
    (hi : (finite false m s h).toInt? = some i) : 0 ≤ i ∧ IsWhole i.toNat := by
  simp only [toInt?, Bool.false_eq_true, if_false] at hi
  split at hi
  · next hm =>
      obtain rfl := Option.some.inj hi
      refine ⟨Int.natCast_nonneg _, m, s, h, ?_⟩
      rw [Int.toNat_natCast, Nat.div_mul_cancel (Nat.dvd_of_mod_eq_zero hm)]
  · cases hi

end Binary64

end NodeScript
