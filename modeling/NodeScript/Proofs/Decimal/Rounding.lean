import Mathlib.Algebra.Group.Int.Defs
import Mathlib.Algebra.Group.Nat.Defs
import NodeScript.Proofs.Decimal.Exactness

/-!
# Rounding whole numbers

A whole number of more than 53 bits is read as the multiple of a power of two that is nearest to
it. That multiple is a floating-point number unless it is past all of them, and no whole
floating-point number is nearer.
-/

namespace NodeScript

namespace Binary64

/-- The distance between neighbouring floating-point numbers from the leading bit of `n` on. -/
def spacing (n : Nat) : Nat :=
  2 ^ (n.log2 - 52)

/-- The whole number that `n` is rounded to, a half to the even multiple. -/
def nearestWhole (n : Nat) : Nat :=
  roundDiv n (spacing n) * spacing n

theorem spacing_pos (n : Nat) : 0 < spacing n :=
  Nat.two_pow_pos _

/-! ## The rounded quotient -/

variable {n m d q k : Nat}

theorem roundDiv_error (n d : Nat) (hd : 0 < d) :
    2 * ((n : Int) - (roundDiv n d * d : Nat)).natAbs ≤ d := by
  have hn : d * (n / d) + n % d = n := Nat.div_add_mod n d
  have hr : n % d < d := Nat.mod_lt n hd
  rw [Nat.mul_comm] at hn
  unfold roundDiv
  split
  · omega
  · rw [Nat.add_mul]
    omega

theorem roundDiv_even (hd : 0 < d) (h : 2 * ((n : Int) - (roundDiv n d * d : Nat)).natAbs = d) :
    roundDiv n d % 2 = 0 := by
  have hn : d * (n / d) + n % d = n := Nat.div_add_mod n d
  have hr : n % d < d := Nat.mod_lt n hd
  rw [Nat.mul_comm] at hn
  unfold roundDiv at h ⊢
  split at h
  · next hlt =>
      rw [if_pos hlt]
      omega
  · next hlt =>
      rw [Nat.add_mul] at h
      rw [if_neg hlt]
      omega

theorem roundDiv_nearest (n k : Nat) {d : Nat} (hd : 0 < d) :
    ((n : Int) - (roundDiv n d * d : Nat)).natAbs ≤ ((n : Int) - (k * d : Nat)).natAbs := by
  have he := roundDiv_error n d hd
  generalize roundDiv n d = q at he ⊢
  rcases Nat.lt_trichotomy q k with hq | rfl | hq
  · have : (q + 1) * d ≤ k * d := Nat.mul_le_mul_right d hq
    rw [Nat.add_mul] at this
    omega
  · exact Nat.le_refl _
  · have : (k + 1) * d ≤ q * d := Nat.mul_le_mul_right d hq
    rw [Nat.add_mul] at this
    omega

theorem le_roundDiv (hd : 0 < d) (h : q * d ≤ n) : q ≤ roundDiv n d := by
  have : q ≤ n / d := (Nat.le_div_iff_mul_le hd).2 h
  unfold roundDiv
  split <;> omega

theorem roundDiv_le (hd : 0 < d) (h : n < q * d) : roundDiv n d ≤ q := by
  have : n / d < q := (Nat.div_lt_iff_lt_mul hd).2 h
  unfold roundDiv
  split <;> omega

theorem roundDiv_one (n : Nat) : roundDiv n 1 = n := by
  simp [roundDiv, Nat.mod_one]

/-! ## The leading bit -/

theorem nearestWhole_of_log2_le (h : n.log2 ≤ 52) : nearestWhole n = n := by
  have : spacing n = 1 := by simp [spacing, Nat.sub_eq_zero_of_le h]
  rw [nearestWhole, this, roundDiv_one, Nat.mul_one]

theorem pow_log2_eq (h : 52 ≤ n.log2) : 2 ^ n.log2 = 2 ^ 52 * spacing n := by
  rw [spacing, ← Nat.pow_add]
  congr 1
  omega

theorem spacing_mul_le (h : 52 ≤ n.log2) : 2 ^ 52 * spacing n ≤ n := by
  have hne : n ≠ 0 := by
    rintro rfl
    cases h
  rw [← pow_log2_eq h]
  exact (Nat.le_log2 hne).1 (Nat.le_refl _)

theorem lt_spacing_mul (h : 52 ≤ n.log2) : n < 2 ^ 53 * spacing n := by
  have hne : n ≠ 0 := by
    rintro rfl
    cases h
  have : 2 ^ 53 * spacing n = 2 ^ (n.log2 + 1) := by
    rw [Nat.pow_succ 2 n.log2, pow_log2_eq h]
    omega
  rw [this]
  exact (Nat.log2_lt hne).1 (Nat.lt_succ_self _)

/-- A rounded whole number keeps its 53 bits, or is carried to the next power of two. -/
theorem roundDiv_spacing (h : 52 ≤ n.log2) :
    2 ^ 52 ≤ roundDiv n (spacing n) ∧ roundDiv n (spacing n) ≤ 2 ^ 53 :=
  ⟨le_roundDiv (spacing_pos n) (spacing_mul_le h), roundDiv_le (spacing_pos n) (lt_spacing_mul h)⟩

theorem log2_mul_two_pow (hn : n ≠ 0) (k : Nat) : (n * 2 ^ k).log2 = n.log2 + k := by
  have hp := Nat.two_pow_pos k
  rw [Nat.log2_eq_iff (Nat.mul_ne_zero hn (Nat.ne_of_gt hp)), Nat.add_right_comm,
    Nat.pow_add, Nat.pow_add 2 (n.log2 + 1)]
  exact ⟨Nat.mul_le_mul_right _ ((Nat.le_log2 hn).1 (Nat.le_refl _)),
    Nat.mul_lt_mul_of_pos_right ((Nat.log2_lt hn).1 (Nat.lt_succ_self _)) hp⟩

theorem spacing_dvd_of_isWhole (h : IsWhole n) : spacing n ∣ n := by
  obtain ⟨m, s, hc, hu⟩ := h
  by_cases hn : n.log2 ≤ 52
  · simp [spacing, Nat.sub_eq_zero_of_le hn]
  · have hne : n ≠ 0 := by
      rintro rfl
      exact hn (by decide)
    have hs : s = n.log2 - 52 + 1074 := by
      rw [← log2_units hc, hu, unitsPerOne_eq rfl, log2_mul_two_pow hne]
      omega
    have hm : m * spacing n * unitsPerOne = n * unitsPerOne := by
      rw [← hu, units, hs, unitsPerOne_eq rfl, spacing, Nat.mul_assoc, ← Nat.pow_add]
      rfl
    exact ⟨m, by rw [Nat.mul_comm]; exact (Nat.mul_right_cancel unitsPerOne_pos hm).symm⟩

theorem nearestWhole_of_isWhole (h : IsWhole n) : nearestWhole n = n := by
  obtain ⟨q, hq⟩ := spacing_dvd_of_isWhole h
  have hn := roundDiv_nearest n q (spacing_pos n)
  rw [Nat.mul_comm q, ← hq] at hn
  unfold nearestWhole
  omega

theorem nearestWhole_nearest (n : Nat) (h : IsWhole m) :
    ((n : Int) - nearestWhole n).natAbs ≤ ((n : Int) - m).natAbs := by
  by_cases hn : n.log2 ≤ 52
  · rw [nearestWhole_of_log2_le hn]
    omega
  · have hn : 52 ≤ n.log2 := by omega
    by_cases hm : 2 ^ 52 * spacing n ≤ m
    · -- from the leading bit on, the numbers are multiples of the spacing
      have hd : spacing n ∣ m := by
        refine Nat.dvd_trans (Nat.pow_dvd_pow 2 ?_) (spacing_dvd_of_isWhole h)
        have hne : m ≠ 0 := by
          rintro rfl
          have := spacing_pos n
          omega
        rw [← pow_log2_eq hn] at hm
        have := (Nat.le_log2 hne).2 hm
        omega
      obtain ⟨q, rfl⟩ := hd
      rw [Nat.mul_comm]
      exact roundDiv_nearest n q (spacing_pos n)
    · have hr := roundDiv_nearest n (2 ^ 52) (spacing_pos n)
      have := spacing_mul_le hn
      unfold nearestWhole
      omega

/-! ## The number that a whole number is read as -/

theorem units_two_pow (m s : Nat) : units m s = m * 2 ^ s :=
  rfl

/-- A rounded significand names a number, unless that would be past the last one. -/
theorem ofRounded_of_lt {s k : Nat} (hm : 2 ^ 52 ≤ m) (hm' : m ≤ 2 ^ 53) (hk : k = 2098)
    (h : m * 2 ^ s < 2 ^ k) :
    ∃ m' s' hc, ofRounded false m s = .finite false m' s' hc ∧ units m' s' = m * 2 ^ s := by
  rcases Nat.lt_or_eq_of_le hm' with hlt | rfl
  · have hs : 52 + s < k := by
      rw [← Nat.pow_lt_pow_iff_right (a := 2) (by decide), Nat.pow_add]
      exact Nat.lt_of_le_of_lt (Nat.mul_le_mul_right _ hm) h
    have hc : IsCanonical m s := ⟨hlt, by omega, .inl hm⟩
    exact ⟨m, s, hc, by rw [ofRounded, dif_pos hc], rfl⟩
  · have hs : 53 + s < k := by
      rw [← Nat.pow_lt_pow_iff_right (a := 2) (by decide), Nat.pow_add]
      exact h
    have hc : IsCanonical 0x10000000000000 (s + 1) := ⟨by decide, by omega, .inl (Nat.le_refl _)⟩
    refine ⟨_, s + 1, hc, ?_, ?_⟩
    · rw [ofRounded, dif_neg (fun h => absurd h.1 (by decide)), dif_pos ⟨rfl, by omega⟩]
    · rw [units_two_pow, Nat.pow_succ']
      omega

theorem ofRounded_of_le {s k : Nat} (hm : m ≤ 2 ^ 53) (hk : k = 2098) (h : 2 ^ k ≤ m * 2 ^ s) :
    ofRounded false m s = .infinite false := by
  rw [ofRounded, dif_neg, dif_neg]
  · rintro ⟨rfl, hs⟩
    have : 2 ^ k ≤ 2 ^ (53 + s) := by rwa [Nat.pow_add]
    rw [Nat.pow_le_pow_iff_right (by decide)] at this
    omega
  · rintro ⟨hlt, hs, -⟩
    have : 2 ^ k < 2 ^ (53 + s) := by
      rw [Nat.pow_add]
      exact Nat.lt_of_le_of_lt h (Nat.mul_lt_mul_of_pos_right hlt (Nat.two_pow_pos s))
    rw [Nat.pow_lt_pow_iff_right (by decide)] at this
    omega

theorem two_pow_mul_unitsPerOne {k j : Nat} (hj : j = k + 1074) :
    2 ^ k * unitsPerOne = 2 ^ j := by
  rw [unitsPerOne_eq rfl, ← Nat.pow_add, hj]

/-- The significand and the scale that a whole number is rounded to. -/
theorem ofRatio_one (h : 52 ≤ n.log2) :
    ∃ s, ofRatio false n 1 = ofRounded false (roundDiv n (spacing n)) s ∧
      roundDiv n (spacing n) * 2 ^ s = nearestWhole n * unitsPerOne := by
  have hne : n ≠ 0 := by
    rintro rfl
    cases h
  obtain ⟨s, hs⟩ : ∃ s, s = n.log2 - 52 + 1074 := ⟨_, rfl⟩
  have hp : spacing n * unitsPerOne = 2 ^ s := two_pow_mul_unitsPerOne hs
  have hl : (n * unitsPerOne / 1).log2 - 52 = s := by
    rw [Nat.div_one, unitsPerOne_eq rfl, log2_mul_two_pow hne]
    omega
  refine ⟨s, ?_, ?_⟩
  · have hd : 1 * Nat.pow 2 s = spacing n * unitsPerOne := by
      rw [Nat.one_mul, hp]
      rfl
    rw [ofRatio, ofUnits, hl, hd, roundDiv_scale _ _ unitsPerOne_pos]
  · rw [← hp, nearestWhole, Nat.mul_assoc]

theorem lt_two_pow_of_log2_le {k : Nat} (h : n.log2 ≤ k) : n < 2 ^ (k + 1) := by
  rcases Nat.eq_zero_or_pos n with rfl | hn
  · exact Nat.two_pow_pos _
  · exact (Nat.log2_lt (Nat.ne_of_gt hn)).1 (Nat.lt_succ_of_le h)

/-- A whole number is read as the number that it is rounded to. -/
theorem ofRatio_one_of_lt {k : Nat} (hk : k = 1024) (h : nearestWhole n < 2 ^ k) :
    ∃ m s hc, ofRatio false n 1 = .finite false m s hc ∧
      units m s = nearestWhole n * unitsPerOne := by
  by_cases hl : n.log2 ≤ 52
  · obtain ⟨m, s, hc, hu⟩ := isWhole_of_le (Nat.le_of_lt (lt_two_pow_of_log2_le hl))
    rw [nearestWhole_of_log2_le hl]
    exact ⟨m, s, hc, by rw [ofRatio, ← hu, ofUnits_units], hu⟩
  · obtain ⟨hm, hm'⟩ := roundDiv_spacing (n := n) (by omega)
    obtain ⟨s, hr, hw⟩ := ofRatio_one (n := n) (by omega)
    rw [hr, ← hw]
    refine ofRounded_of_lt (k := k + 1074) hm hm' (by omega) ?_
    rw [hw, ← two_pow_mul_unitsPerOne rfl]
    exact Nat.mul_lt_mul_of_pos_right h unitsPerOne_pos

theorem ofRatio_one_of_le {k : Nat} (hk : k = 1024) (h : 2 ^ k ≤ nearestWhole n) :
    ofRatio false n 1 = .infinite false := by
  by_cases hl : n.log2 ≤ 52
  · have hn : 2 ^ k ≤ 2 ^ 53 := by
      rw [nearestWhole_of_log2_le hl] at h
      exact Nat.le_of_lt (Nat.lt_of_le_of_lt h (lt_two_pow_of_log2_le hl))
    rw [Nat.pow_le_pow_iff_right (by decide)] at hn
    omega
  · obtain ⟨-, hm'⟩ := roundDiv_spacing (n := n) (by omega)
    obtain ⟨s, hr, hw⟩ := ofRatio_one (n := n) (by omega)
    rw [hr]
    refine ofRounded_of_le (k := k + 1074) hm' (by omega) ?_
    rw [hw, ← two_pow_mul_unitsPerOne rfl]
    exact Nat.mul_le_mul_right _ h

theorem toInt?_ofRatio_one (n : Nat) {k : Nat} (hk : k = 1024) :
    (ofRatio false n 1).toInt? =
      if nearestWhole n < 2 ^ k then some (nearestWhole n : Int) else none := by
  split
  · next h =>
      obtain ⟨m, s, hc, hr, hu⟩ := ofRatio_one_of_lt hk h
      rw [hr]
      simp [toInt?, hu, Nat.mul_div_cancel _ unitsPerOne_pos]
  · next h =>
      rw [ofRatio_one_of_le hk (Nat.le_of_not_lt h)]
      rfl

theorem isWhole_nearestWhole {k : Nat} (hk : k = 1024) (h : nearestWhole n < 2 ^ k) :
    IsWhole (nearestWhole n) := by
  obtain ⟨m, s, hc, -, hu⟩ := ofRatio_one_of_lt hk h
  exact ⟨m, s, hc, hu⟩

/-! ## Powers of two -/

theorem le_nearestWhole {k : Nat} (h : 2 ^ k ≤ n) : 2 ^ k ≤ nearestWhole n := by
  by_cases hl : n.log2 ≤ 52
  · rwa [nearestWhole_of_log2_le hl]
  · have hne : n ≠ 0 := by
      rintro rfl
      exact hl (by decide)
    calc 2 ^ k ≤ 2 ^ n.log2 := Nat.pow_le_pow_right (by decide) ((Nat.le_log2 hne).2 h)
      _ = 2 ^ 52 * spacing n := pow_log2_eq (by omega)
      _ ≤ nearestWhole n := Nat.mul_le_mul_right _ (roundDiv_spacing (by omega)).1

theorem spacing_le {k : Nat} (hk : 53 ≤ k) (h : n < 2 ^ k) : spacing n ≤ 2 ^ (k - 53) := by
  refine Nat.pow_le_pow_right (by decide) ?_
  by_cases hn : n = 0
  · subst hn
    simp
  · have := (Nat.log2_lt hn).2 h
    omega

theorem spacing_eq {k : Nat} (hn : 2 ^ k ≤ n) (h : n < 2 ^ (k + 1)) :
    spacing n = 2 ^ (k - 52) := by
  have hne : n ≠ 0 := Nat.ne_of_gt (Nat.lt_of_lt_of_le (Nat.two_pow_pos k) hn)
  rw [spacing, (Nat.log2_eq_iff hne).2 ⟨hn, h⟩]

/-- Where the last multiple below a power of two is odd, a half is carried to the power. -/
theorem roundDiv_of_half_le {e : Nat} (hq : q % 2 = 1) (h : (q + 1) * (2 * e) - e ≤ n)
    (hn : n < (q + 1) * (2 * e)) : roundDiv n (2 * e) = q + 1 := by
  have he : (q + 1) * (2 * e) = 2 * e * q + 2 * e := by
    rw [Nat.mul_comm, Nat.mul_add, Nat.mul_one]
  have hdiv : n / (2 * e) = q := by
    refine Nat.div_eq_of_lt_le ?_ hn
    rw [Nat.mul_comm]
    omega
  have hmod : 2 * e * q + n % (2 * e) = n := by
    rw [← hdiv]
    exact Nat.div_add_mod n (2 * e)
  rw [roundDiv, hdiv, if_neg]
  omega

/-- Rounding reaches a power of two from half a spacing below it on. -/
theorem nearestWhole_lt_iff {k : Nat} (hk : 54 ≤ k) :
    nearestWhole n < 2 ^ k ↔ n < 2 ^ k - 2 ^ (k - 54) := by
  have hd : 2 ^ (k - 53) = 2 * 2 ^ (k - 54) := by
    rw [← Nat.pow_succ']
    congr 1
    omega
  have hp : 2 ^ k = (2 ^ 53 - 1 + 1) * (2 * 2 ^ (k - 54)) := by
    rw [← hd, Nat.sub_add_cancel (by decide), ← Nat.pow_add]
    congr 1
    omega
  have hh : 2 ^ k = 2 * 2 ^ (k - 1) := by
    rw [← Nat.pow_succ']
    congr 1
    omega
  constructor
  · intro h
    refine Nat.lt_of_not_le fun hle => Nat.not_le.2 h ?_
    by_cases hn : 2 ^ k ≤ n
    · exact le_nearestWhole hn
    · have hs : spacing n = 2 * 2 ^ (k - 54) := by
        rw [← hd, spacing_eq (k := k - 1) (by omega) (by rw [Nat.sub_add_cancel] <;> omega)]
        congr 1
      rw [nearestWhole, hs, roundDiv_of_half_le (q := 2 ^ 53 - 1) (by decide) (by omega) (by omega)]
      exact Nat.le_of_eq hp
  · intro h
    have hs := spacing_le (n := n) (k := k) (by omega) (by omega)
    have he := roundDiv_error n (spacing n) (spacing_pos n)
    unfold nearestWhole
    omega

theorem toInt?_ofDecimal_zero (n : Nat) {k : Nat} (hk : k = 1024) :
    (ofDecimal false n 0).toInt? =
      if nearestWhole n < 2 ^ k then some (nearestWhole n : Int) else none := by
  have hp : n * Nat.pow 10 (Int.toNat 0) = n := Nat.mul_one n
  unfold ofDecimal
  split
  · next hz =>
      subst hz
      have : (0 : Nat) < 2 ^ k := Nat.two_pow_pos k
      rw [nearestWhole_of_log2_le (by decide), if_pos this]
      simp [zero, toInt?, units]
  · split
    · next hl =>
        have hn : 10 ^ 310 ≤ n := by
          refine Nat.le_of_not_lt fun hlt => ?_
          have := (Decimal.decimalLength_le_iff (k := 310) (by decide)).2 hlt
          omega
        have hk : 2 ^ k ≤ 10 ^ 310 := by
          subst hk
          decide +kernel
        rw [if_neg (Nat.not_lt.2 (le_nearestWhole (Nat.le_trans hk hn)))]
        rfl
    · rw [if_neg (by omega), if_pos (by decide), hp, toInt?_ofRatio_one n hk]

end Binary64

end NodeScript
