import NodeScript.Pattern.CharSet

/-!
# Characters

The ASCII characters one by one, and how blanks, word characters and digits relate.
-/

namespace NodeScript

theorem forall_ascii {P : Char → Prop} (h : ∀ n < 128, P (Char.ofNat n)) {x : Char}
    (hx : x.toNat < 128) : P x := by
  have := h x.toNat hx
  rwa [Char.ofNat_toNat] at this

theorem toNat_lt_of_isAlphanum {x : Char} (h : x.isAlphanum) : x.toNat < 128 := by
  delta Char.isAlphanum Char.isAlpha Char.isUpper Char.isLower Char.isDigit at h
  simp only [Bool.or_eq_true, Bool.and_eq_true, decide_eq_true_eq, UInt32.le_iff_toNat_le,
    ge_iff_le] at h
  have hZ : 'Z'.val.toNat = 90 := rfl
  have hz : 'z'.val.toNat = 122 := rfl
  have h9 : '9'.val.toNat = 57 := rfl
  simp only [Char.toNat]
  omega

theorem forall_digit {P : Char → Prop} (h : ∀ n < 10, P (Char.ofNat (n + 48))) {x : Char}
    (hx : x.isDigit) : P x := by
  obtain ⟨hlow, hhigh⟩ : 48 ≤ x.toNat ∧ x.toNat ≤ 57 := Char.isDigit_iff_toNat.1 hx
  have := h (x.toNat - 48) (by omega)
  rwa [Nat.sub_add_cancel hlow, Char.ofNat_toNat] at this

theorem Text.isWordChar_of_isAlphanum {x : Char} (h : x.isAlphanum || x == '_') :
    Text.isWordChar x := by
  have hx : x.toNat < 128 := by
    rcases Bool.or_eq_true_iff.1 h with h | h
    · exact toNat_lt_of_isAlphanum h
    · simp [eq_of_beq h]
  rw [Text.isWordChar, if_pos hx]
  exact h

namespace Text

/-- A character in ranges lies in none that are apart from them. -/
theorem inRanges_eq_false_of_apart {ranges ranges' : Array (Nat × Nat)}
    (h : ∀ r ∈ ranges.toList, ∀ r' ∈ ranges'.toList, r.2 < r'.1 ∨ r'.2 < r.1)
    {c : Char} (hc : inRanges ranges c) : inRanges ranges' c = false := by
  obtain ⟨r, hr, hc⟩ := Array.any_eq_true'.1 hc
  refine Bool.eq_false_iff.2 fun hc' => ?_
  obtain ⟨r', hr', hc'⟩ := Array.any_eq_true'.1 hc'
  have := h r hr.val r' hr'.val
  simp only [decide_eq_true_eq, Bool.and_eq_true] at hc hc'
  omega

/-- No blank character is a word character. -/
theorem isWordChar_of_isBlank {c : Char} (h : isBlank c) : isWordChar c = false := by
  by_cases hc : c.toNat < 0x80
  · refine forall_ascii (P := fun c => isBlank c → isWordChar c = false) ?_ hc h
    decide
  · rw [isBlank, if_neg hc] at h
    rw [isWordChar, if_neg hc]
    exact inRanges_eq_false_of_apart (by decide +kernel) h

end Text

namespace CharSet

/-- Whether all members are of ASCII, when it is easily told. -/
def isAscii : CharSet → Bool
  | .single c => c.toNat < 128
  | .range _ high => high.toNat < 128
  | .union a b => a.isAscii && b.isAscii
  | _ => false

theorem toNat_lt_of_isAscii {set : CharSet} (h : set.isAscii) {x : Char} (hx : set.accepts x) :
    x.toNat < 128 := by
  induction set with
  | single c =>
      obtain rfl : x = c := by simpa [accepts] using hx
      simpa [isAscii] using h
  | range low high =>
      have hh : x.val.toNat ≤ high.val.toNat := by
        simp only [accepts, Bool.and_eq_true, decide_eq_true_eq, Char.le_def,
          UInt32.le_iff_toNat_le] at hx
        exact hx.2
      simp only [isAscii, decide_eq_true_eq, Char.toNat] at h ⊢
      omega
  | union a b iha ihb =>
      obtain ⟨ha, hb⟩ := Bool.and_eq_true_iff.1 h
      exact (Bool.or_eq_true_iff.1 hx).elim (iha ha) (ihb hb)
  | _ => cases h

end CharSet

end NodeScript
