import NodeScript.Proofs.Decimal.Numeral
import NodeScript.Proofs.Decimal.Rounding

/-!
# Whole numbers

What whole numbers are written as, and that it is read back: as a number of 64 bits with or without
sign, and as a floating-point number where there is one.
-/

namespace NodeScript

open Decimal

theorem toList_toString (i : Int) :
    (toString i).toList = minus (decide (i < 0)) ++ Nat.toDigits 10 i.natAbs := by
  cases i with
  | ofNat n =>
      have h : toString (Int.ofNat n) = n.repr := rfl
      rw [h, Nat.toList_repr, decide_eq_false (by simp)]
      rfl
  | negSucc n =>
      have h : toString (Int.negSucc n) = "-" ++ (n + 1).repr := rfl
      rw [h, String.toList_append, Nat.toList_repr, decide_eq_true (Int.negSucc_lt_zero n)]
      rfl

theorem exists_toString (i : Int) :
    ∃ x rest, (toString i).toList = x :: rest ∧ (x.isDigit || x == '-') := by
  have head := head_minus_digits (decide (i < 0)) (Nat.toDigits_ne_nil (b := 10) (n := i.natAbs))
    isDigit_toDigits []
  rwa [List.append_nil, ← toList_toString] at head

namespace Decimal

theorem toInt64?_toInt (i : Int64) : toInt64? i.toInt = some i := by
  have h : Int64.minValue.toInt ≤ i.toInt ∧ i.toInt ≤ Int64.maxValue.toInt :=
    ⟨Int64.minValue_le_toInt i, Int64.toInt_le i⟩
  rw [toInt64?, if_pos h, Int64.ofInt_toInt]

theorem toUInt64?_toNat (n : UInt64) : toUInt64? n.toNat = some n := by
  have h : (0 : Int) ≤ n.toNat ∧ (n.toNat : Int) < UInt64.size :=
    ⟨Int.natCast_nonneg _, Int.ofNat_lt.2 n.toNat_lt_size⟩
  rw [toUInt64?, if_pos h, Int.toNat_natCast, UInt64.ofNat_toNat]

theorem toInt64?_natCast (n : Nat) :
    (toInt64? n).map Int64.toInt = if n < 2 ^ 63 then some (n : Int) else none := by
  have hmin : Int64.minValue.toInt = -2 ^ 63 := by decide
  have hmax : Int64.maxValue.toInt = 2 ^ 63 - 1 := by decide
  unfold toInt64?
  rw [hmin, hmax]
  by_cases h : n < 2 ^ 63
  · rw [if_pos (by omega), if_pos h, Option.map_some, Int64.toInt_ofInt_of_le (by omega) (by omega)]
  · rw [if_neg (by omega), if_neg h, Option.map_none]

theorem readInt64?_toString (i : Int64) : readInt64? (toString i.toInt) = some i := by
  have h := readInt?_digits (decide (i.toInt < 0))
    (Nat.toDigits_ne_nil (b := 10) (n := i.toInt.natAbs)) isDigit_toDigits
  rw [readInt64?, toList_toString, h, ofDigits_toDigits, signed_natAbs, Option.bind_some,
    toInt64?_toInt]

theorem readUInt64?_toString (n : UInt64) : readUInt64? (toString n.toNat) = some n := by
  have hr := readNat?_digits (Nat.toDigits_ne_nil (n := n.toNat) (b := 10)) isDigit_toDigits
  rw [ofDigits_toDigits] at hr
  rw [readUInt64?, Nat.toString_eq_repr, Nat.toList_repr]
  split
  · next h => exact absurd h (toDigits_ne_cons rfl _ _)
  · rw [hr, Option.bind_some, toUInt64?_toNat]

end Decimal

namespace Binary64

/-- Digits alone are a numeral. -/
theorem read?_digits {ds : List Char} (hne : ds ≠ []) (hd : ∀ x ∈ ds, x.isDigit) :
    read? (String.ofList ds) = some (ofDecimal false (ofDigits ds) 0) := by
  let numeral : Numeral := ⟨ds, none, none⟩
  have hw : numeral.WellFormed := ⟨hne, hd, by simp [numeral], by simp [numeral], by simp [numeral]⟩
  have ht : minus false ++ numeral.text = ds := by
    simp [numeral, Numeral.text, Numeral.exponentText, minus]
  have hn : numeral.number false = ofDecimal false (ofDigits ds) 0 := by
    simp [numeral, Numeral.number, Numeral.digits, Numeral.power]
  have hr := Numeral.read?_text hw false
  rwa [ht, hn] at hr

/-- A whole number that is a floating-point number is read as one. -/
theorem toInt?_read?_toString {n : Nat} (h : IsWhole n) (hl : n < 2 ^ 64) :
    (read? (toString n)).bind toInt? = some (n : Int) := by
  obtain ⟨k, hk⟩ : ∃ k, k = 1024 := ⟨_, rfl⟩
  have hn : n < 2 ^ k := Nat.lt_trans hl (Nat.pow_lt_pow_right (by decide) (by omega))
  rw [Nat.toString_eq_repr, Nat.repr_eq_ofList_toDigits,
    read?_digits Nat.toDigits_ne_nil isDigit_toDigits, ofDigits_toDigits, Option.bind_some,
    toInt?_ofDecimal_zero n hk, nearestWhole_of_isWhole h, if_pos hn]

end Binary64

end NodeScript
