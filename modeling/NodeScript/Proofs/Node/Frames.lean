import NodeScript.Node.Cast
import NodeScript.Proofs.Decimal.Integers

/-!
# Frame labels

The frame of a label, the mark before a whole number, is the floating-point number nearest to that
number. Labels of whole numbers that are floating-point numbers themselves have their own frames.
-/

namespace NodeScript

open Binary64 Decimal

/-- The text of the token is the mark of frames and the digits of the number. -/
def Token.IsFrameLabel (t : Token) (n : Nat) : Prop :=
  ∃ ds, t.text.toList = 'x' :: ds ∧ ds ≠ [] ∧ (∀ x ∈ ds, x.isDigit) ∧ ofDigits ds = n

namespace Token

variable {t : Token} {n : Nat}

theorem castFrame_of_read {x : Binary64} (h : Binary64.read? (frameDigits t.text) = some x) :
    t.castFrame.map Int64.toInt =
      match x.toInt? with
      | none => .error (.fractionalFrame t.text)
      | some i =>
        match (toInt64? i).map Int64.toInt with
        | some frame => .ok frame
        | none => .error (.invalidNumber .frame t.text) := by
  simp only [castFrame, h]
  cases x.toInt? with
  | none => rfl
  | some i =>
      dsimp only
      cases toInt64? i with
      | none => rfl
      | some frame => rfl

/-- The frame of a label is the whole number that its number is rounded to. -/
theorem castFrame_of_isFrameLabel (h : t.IsFrameLabel n) {k : Nat} (hk : k = 1024) :
    t.castFrame.map Int64.toInt =
      if nearestWhole n < 2 ^ 63 then .ok (nearestWhole n : Int)
      else if nearestWhole n < 2 ^ k then .error (.invalidNumber .frame t.text)
      else .error (.fractionalFrame t.text) := by
  obtain ⟨ds, ht, hne, hd, rfl⟩ := h
  have hf : frameDigits t.text = String.ofList ds := by
    unfold frameDigits
    rw [ht]
    rfl
  rw [castFrame_of_read (x := ofDecimal false (ofDigits ds) 0) (by rw [hf, read?_digits hne hd]),
    toInt?_ofDecimal_zero _ hk]
  have hlt : 2 ^ 63 < 2 ^ k := Nat.pow_lt_pow_right (by decide) (by omega)
  by_cases h₁ : nearestWhole (ofDigits ds) < 2 ^ 63
  · rw [if_pos (Nat.lt_trans h₁ hlt), if_pos h₁]
    dsimp only
    rw [toInt64?_natCast, if_pos h₁]
  · rw [if_neg h₁]
    by_cases h₂ : nearestWhole (ofDigits ds) < 2 ^ k
    · rw [if_pos h₂, if_pos h₂]
      dsimp only
      rw [toInt64?_natCast, if_neg h₁]
    · rw [if_neg h₂, if_neg h₂]

/-- A label has its number as its frame where the number is a floating-point number that fits into
64 bits, and nowhere else. -/
theorem castFrame_eq_iff (h : t.IsFrameLabel n) :
    t.castFrame.map Int64.toInt = .ok (n : Int) ↔ n < 2 ^ 63 ∧ IsWhole n := by
  obtain ⟨k, hk⟩ : ∃ k, k = 1024 := ⟨_, rfl⟩
  rw [castFrame_of_isFrameLabel h hk]
  constructor
  · intro heq
    split at heq
    · next hlt =>
        have hn : nearestWhole n = n := Int.ofNat.inj (Except.ok.inj heq)
        have hlt' : nearestWhole n < 2 ^ k :=
          Nat.lt_trans hlt (Nat.pow_lt_pow_right (by decide) (by omega))
        exact ⟨hn ▸ hlt, hn ▸ isWhole_nearestWhole hk hlt'⟩
    · split at heq <;> cases heq
  · rintro ⟨hn, hw⟩
    rw [nearestWhole_of_isWhole hw, if_pos hn]

/-- The frame of a label is the floating-point number nearest to its number, a half to the even
significand, where that is a whole number of 64 bits. The labels of floating-point numbers have
frames of their own. -/
theorem castFrame_label (h : t.IsFrameLabel n) :
    t.castFrame.map Int64.toInt =
      (if n < 2 ^ 63 - 2 ^ 9 then .ok (nearestWhole n : Int)
      else if n < 2 ^ 1024 - 2 ^ 970 then .error (.invalidNumber .frame t.text)
      else .error (.fractionalFrame t.text)) ∧
    (n < 2 ^ 1024 - 2 ^ 970 → IsWhole (nearestWhole n)) ∧
    (∀ m, IsWhole m → ((n : Int) - nearestWhole n).natAbs ≤ ((n : Int) - m).natAbs) ∧
    (2 * ((n : Int) - nearestWhole n).natAbs = spacing n → roundDiv n (spacing n) % 2 = 0) ∧
    (n ≤ 2 ^ 53 → IsWhole n) ∧
    (t.castFrame.map Int64.toInt = .ok (n : Int) ↔ n < 2 ^ 63 ∧ IsWhole n) ∧
    ∀ (t' : Token) (n' : Nat), t'.IsFrameLabel n' → n < 2 ^ 63 → IsWhole n → IsWhole n' →
      t'.castFrame = t.castFrame → n' = n := by
  obtain ⟨k, hk⟩ : ∃ k, k = 1024 := ⟨_, rfl⟩
  have hfits : nearestWhole n < 2 ^ 63 ↔ n < 2 ^ 63 - 2 ^ 9 := nearestWhole_lt_iff (by decide)
  have hfinite : nearestWhole n < 2 ^ k ↔ n < 2 ^ 1024 - 2 ^ 970 := by
    have hk' : k - 54 = 970 := by omega
    rw [nearestWhole_lt_iff (by omega), hk', hk]
  refine ⟨?_, fun hn => isWhole_nearestWhole hk (hfinite.2 hn),
    fun m hm => nearestWhole_nearest n hm, roundDiv_even (spacing_pos n), isWhole_of_le,
    castFrame_eq_iff h, fun t' n' h' hn hw hw' heq => ?_⟩
  · rw [castFrame_of_isFrameLabel h hk]
    simp only [hfits, hfinite]
  · have hc := (castFrame_eq_iff h).2 ⟨hn, hw⟩
    rw [← heq, castFrame_of_isFrameLabel h' hk, nearestWhole_of_isWhole hw'] at hc
    split at hc
    · exact Int.ofNat.inj (Except.ok.inj hc)
    · split at hc <;> cases hc

theorem castFrame_label_next :
    let t : Token := ⟨"FRAME", "x9007199254740995", none, ⟨0, 17⟩⟩
    t.IsFrameLabel 9007199254740995 ∧ t.castFrame.map Int64.toInt = .ok 9007199254740996 := by
  intro t
  have h : t.IsFrameLabel 9007199254740995 :=
    ⟨"9007199254740995".toList, by decide, by decide, List.all_eq_true.1 rfl, by decide⟩
  exact ⟨h, by rw [(castFrame_label h).1]; decide⟩

/-- Past `2 ^ 53` two labels can have one frame. -/
theorem castFrame_label_collapse :
    let t : Token := ⟨"FRAME", "x9007199254740993", none, ⟨0, 17⟩⟩
    let t' : Token := ⟨"FRAME", "x9007199254740992", none, ⟨0, 17⟩⟩
    t.IsFrameLabel 9007199254740993 ∧ t'.IsFrameLabel 9007199254740992 ∧
      9007199254740993 < 2 ^ 63 ∧ t.castFrame.map Int64.toInt = .ok 9007199254740992 ∧
      t'.castFrame.map Int64.toInt = .ok 9007199254740992 := by
  intro t t'
  have h : t.IsFrameLabel 9007199254740993 :=
    ⟨"9007199254740993".toList, by decide, by decide, List.all_eq_true.1 rfl, by decide⟩
  have h' : t'.IsFrameLabel 9007199254740992 :=
    ⟨"9007199254740992".toList, by decide, by decide, List.all_eq_true.1 rfl, by decide⟩
  refine ⟨h, h', by decide, ?_, ?_⟩
  · rw [castFrame_of_isFrameLabel h rfl]
    decide
  · exact (castFrame_eq_iff h').2 ⟨by decide, isWhole_of_le (by decide)⟩

end Token

end NodeScript
