import NodeScript.Json.Reader
import NodeScript.Proofs.Decimal.Integers

/-!
# Texts and numbers of JSON

A text is read back from its escapes, and a whole number of 64 bits, with or without sign, from its
digits.
-/

namespace NodeScript

namespace Json

/-! ## Texts -/

/-- The piece that a character is read as: control characters without a letter of their own come
back as units. -/
def pieceOf (c : Char) : Piece :=
  if c.toNat < 0x20 ∧ c ∉ ['\n', '\r', '\t', '\x08', '\x0c'] then .unit c.toNat else .char c

theorem readPieces?_letter {c x : Char} (hc : c ≠ 'u') (hx : escaped? c = some x)
    (rest : List Char) : readPieces? ('\\' :: c :: rest) =
      (readPieces? rest).map fun (pieces, rest) => (.char x :: pieces, rest) := by
  rw [readPieces?, hx]
  · cases readPieces? rest <;> rfl
  · exact fun _ _ _ _ _ hu => absurd hu hc

theorem readPieces?_unit {n : Nat} (hn : n < 0x20) (rest : List Char) :
    readPieces? ('\\' :: 'u' :: '0' :: '0' :: hexDigit (n / 16) :: hexDigit (n % 16) :: rest) =
      (readPieces? rest).map fun (pieces, rest) => (.unit n :: pieces, rest) := by
  have digits : ∀ n < 0x20, hexUnit? '0' '0' (hexDigit (n / 16)) (hexDigit (n % 16)) = some n := by
    decide
  rw [readPieces?, digits n hn]
  cases readPieces? rest <;> rfl

theorem readPieces?_plain {c : Char} (hq : c ≠ '"') (hb : c ≠ '\\') (hc : ¬c.toNat < 0x20)
    (rest : List Char) : readPieces? (c :: rest) =
      (readPieces? rest).map fun (pieces, rest) => (.char c :: pieces, rest) := by
  rw [readPieces?, if_neg (not_or.2 ⟨hc, hb⟩)]
  · rintro rfl; exact hq rfl
  · rintro - - - - - rfl; exact absurd rfl hb
  · rintro - - rfl; exact absurd rfl hb

/-- An escape is a backslash and a letter, a unit of four digits, or the character itself. -/
theorem readPieces?_escape (c : Char) (rest : List Char) :
    readPieces? (escape c ++ rest) =
      (readPieces? rest).map fun (pieces, rest) => (pieceOf c :: pieces, rest) := by
  by_cases hs : c ∈ ['"', '\\', '\n', '\r', '\t', '\x08', '\x0c']
  · simp only [List.mem_cons, List.not_mem_nil, or_false] at hs
    rcases hs with rfl | rfl | rfl | rfl | rfl | rfl | rfl <;>
      exact readPieces?_letter (by decide) rfl rest
  · simp only [List.mem_cons, List.not_mem_nil, or_false, not_or] at hs
    obtain ⟨hq, hb, hn, hr, ht, hs, hf⟩ := hs
    by_cases hc : c.toNat < 0x20
    · have control : pieceOf c = .unit c.toNat := if_pos ⟨hc, by simp [hn, hr, ht, hs, hf]⟩
      simp only [control, escape, hq, hb, hn, hr, ht, hs, hf, hc, if_true, if_false]
      exact readPieces?_unit hc rest
    · have plain : pieceOf c = .char c := if_neg fun h => hc h.1
      simp only [plain, escape, hq, hb, hn, hr, ht, hs, hf, hc, if_false]
      exact readPieces?_plain hq hb hc rest

theorem joinPieces?_pieceOf (c : Char) (pieces : List Piece) :
    joinPieces? (pieceOf c :: pieces) = (joinPieces? pieces).map (c :: ·) := by
  rw [pieceOf]
  split
  · next h =>
    have notHigh : isHighUnit c.toNat = false := by simp [isHighUnit]; omega
    have notLow : isLowUnit c.toNat = false := by simp [isLowUnit]; omega
    cases pieces with
    | nil => simp [joinPieces?, notHigh, notLow, Char.ofNat_toNat]
    | cons p pieces =>
        cases p <;> simp [joinPieces?, notHigh, notLow, Char.ofNat_toNat]
  · rfl

theorem joinPieces?_map_pieceOf (cs : List Char) : joinPieces? (cs.map pieceOf) = some cs := by
  induction cs with
  | nil => rfl
  | cons c cs ih => rw [List.map_cons, joinPieces?_pieceOf, ih, Option.map_some]

theorem readPieces?_flatMap_escape (cs rest : List Char) :
    readPieces? (cs.flatMap escape ++ '"' :: rest) = some (cs.map pieceOf, rest) := by
  induction cs with
  | nil => rfl
  | cons c cs ih =>
      rw [List.flatMap_cons, List.append_assoc, readPieces?_escape, ih, Option.map_some,
        List.map_cons]

/-- What a text is written as reads back up to its closing quote. -/
theorem readText?_escaped (cs rest : List Char) :
    readText? (cs.flatMap escape ++ '"' :: rest) = some (some cs, rest) := by
  simp only [readText?, readPieces?_flatMap_escape, Option.map_some, joinPieces?_map_pieceOf]

/-! ## Numbers -/

namespace Number

open Decimal (digitValue minus)

/-- Nothing that goes on a number comes first. -/
def EndsNumber (rest : List Char) : Prop :=
  ∀ c ∈ rest.head?, ¬c.isDigit ∧ c ≠ '.' ∧ c ≠ 'e' ∧ c ≠ 'E'

/-- The digits of a number above zero do not begin with a zero. -/
theorem head?_toDigits {n : Nat} (h : 0 < n) : (Nat.toDigits 10 n).head? ≠ some '0' := by
  -- the digits of a larger number begin with those of its tenth
  induction n using Nat.strongRecOn with
  | ind n ih =>
      by_cases hn : n < 10
      · rw [Nat.toDigits_of_lt_base hn]
        intro hz
        have := Nat.digitChar_eq_zero.1 (Option.some.inj hz)
        omega
      · rw [Nat.toDigits_of_base_le (by decide) (by omega), List.head?_append]
        obtain ⟨c, ds, hc⟩ := List.exists_cons_of_ne_nil
          (Nat.toDigits_ne_nil (b := 10) (n := n / 10))
        have first := ih (n / 10) (by omega) (by omega)
        rw [hc] at first ⊢
        exact first

theorem readWhole?_toDigits (n : Nat) {rest : List Char} (hr : ∀ c ∈ rest.head?, ¬c.isDigit) :
    readWhole? (Nat.toDigits 10 n ++ rest) = some (Nat.toDigits 10 n, rest) := by
  rw [readWhole?, Decimal.spanDigits_append Decimal.isDigit_toDigits hr]
  obtain rfl | hn := Nat.eq_zero_or_pos n
  · rfl
  · have head := head?_toDigits hn
    split
    · next h => exact absurd (Prod.mk.inj h).1 Nat.toDigits_ne_nil
    · next h => exact absurd (by rw [(Prod.mk.inj h).1]; rfl) head
    · next h =>
        obtain ⟨rfl, rfl⟩ := Prod.mk.inj h
        rfl

/-- Digits are gathered as long as they fit. -/
theorem gather_eq {word : Nat} {ds : List Char} (h : Nat.ofDigitChars 10 ds word < UInt64.size) :
    gather word ds = (Nat.ofDigitChars 10 ds word, []) := by
  induction ds generalizing word with
  | nil => rfl
  | cons c ds ih =>
      rw [Nat.ofDigitChars_cons] at h ⊢
      have fits : 10 * word + digitValue c < UInt64.size := by
        rw [Nat.ofDigitChars_eq_ofDigitChars_zero] at h
        refine Nat.lt_of_le_of_lt ?_ h
        exact Nat.le_add_right_of_le (Nat.le_mul_of_pos_left _ (Nat.pow_pos (by decide)))
      rw [gather]
      simp only [fits, if_true]
      exact ih h

theorem gather_toDigits {n : Nat} (h : n < UInt64.size) :
    gather 0 (Nat.toDigits 10 n) = (n, []) := by
  have digits : Nat.ofDigitChars 10 (Nat.toDigits 10 n) 0 = n := Nat.ofDigitChars_ten_toDigits
  rw [gather_eq (digits.symm ▸ h), digits]

/-- A whole number that 64 bits hold, with a sign or without one. -/
def Fits (i : Int) : Prop :=
  Int64.minValue.toInt ≤ i ∧ i < UInt64.size

instance (i : Int) : Decidable (Fits i) :=
  inferInstanceAs (Decidable (_ ∧ _))

theorem fits_int64 (i : Int64) : Fits i.toInt :=
  ⟨Int64.minValue_le_toInt i, Int.lt_of_le_of_lt (Int64.toInt_le i) (by decide)⟩

theorem fits_uint64 (n : UInt64) : Fits n.toNat :=
  ⟨Int.le_trans (by decide) (Int.natCast_nonneg _), Int.ofNat_lt.2 n.toNat_lt_size⟩

theorem value_toDigits {i : Int} (h : Fits i) :
    value (decide (i < 0)) (Nat.toDigits 10 i.natAbs) none none = .int i := by
  have hmin : Int64.minValue.toInt = -9223372036854775808 := by decide
  have hmax : UInt64.size = 18446744073709551616 := rfl
  obtain ⟨hlow, hhigh⟩ := h
  have hn : i.natAbs < UInt64.size := by omega
  simp only [value, gather_toDigits hn]
  by_cases hi : i < 0
  · have hpos : 0 < i.natAbs := by omega
    have hneg : -(i.natAbs : Int) = i := by omega
    simp only [decide_eq_true hi, List.isEmpty_nil, Bool.not_true, Bool.false_eq_true, if_false,
      hneg, hpos, hlow, and_self, if_true]
  · have hpos : (i.natAbs : Int) = i := by omega
    simp [hi, hpos]

theorem readFraction?_ends {rest : List Char} (hr : EndsNumber rest) :
    readFraction? rest = some (none, rest) := by
  cases rest with
  | nil => rfl
  | cons c rest => exact readFraction?.eq_2 _ fun cs h => (hr c rfl).2.1 (List.cons.inj h).1

theorem readExponent?_ends {rest : List Char} (hr : EndsNumber rest) :
    readExponent? rest = some (none, rest) := by
  cases rest with
  | nil => rfl
  | cons c rest =>
      obtain ⟨-, -, he, hE⟩ := hr c rfl
      rw [readExponent?, if_neg (not_or.2 ⟨he, hE⟩)]

/-- A whole number of 64 bits is read back from its digits. -/
theorem read?_toString {i : Int} (h : Fits i) {rest : List Char} (hr : EndsNumber rest) :
    read? ((toString i).toList ++ rest) = some (.int i, rest) := by
  have whole := readWhole?_toDigits i.natAbs fun c hc => (hr c hc).1
  have number := value_toDigits h
  rw [toList_toString, List.append_assoc]
  by_cases hi : i < 0
  · rw [decide_eq_true hi] at number ⊢
    simp only [minus, if_true, List.singleton_append, read?, whole, readFraction?_ends hr,
      readExponent?_ends hr, number, Option.bind_eq_bind, Option.bind_some]
  · rw [decide_eq_false hi] at number ⊢
    rw [minus, if_neg Bool.false_ne_true, List.nil_append, read?]
    · simp only [whole, readFraction?_ends hr, readExponent?_ends hr, number, Option.bind_eq_bind,
        Option.bind_some]
    · intro after h
      obtain ⟨x, ds, hx⟩ := List.exists_cons_of_ne_nil
        (Nat.toDigits_ne_nil (b := 10) (n := i.natAbs))
      rw [hx] at h
      obtain ⟨rfl, -⟩ := List.cons.inj h
      exact absurd hx (Decimal.toDigits_ne_cons rfl _ _)

end Number

end Json

end NodeScript
