import Mathlib.Data.List.Nodup
import Mathlib.Order.Bounds.Defs
import NodeScript.Node.Value

/-!
# Channels

Each of the channels that a list of values is given has a label of its own. So a label leads to the
channel that it was made for, and the values come back out as they went in.
-/

namespace NodeScript

theorem filterMap_range_getElem? {α : Type} (as : List α) :
    (List.range as.length).filterMap (as[·]?) = as := by
  induction as with
  | nil => rfl
  | cons a as ih =>
      rw [List.length_cons, List.range_succ_eq_map, List.filterMap_cons, List.filterMap_map]
      exact congrArg (a :: ·) ih

namespace MultiChannel

/-! ## Labels -/

/-- What stands behind the letter of a label: nothing in the first four channels, then the number
of those before. -/
def labelSuffix (cycle : Nat) : List Char :=
  if cycle = 0 then [] else Nat.toDigits 10 cycle

theorem labelSuffix_injective : Function.Injective labelSuffix := by
  intro m n h
  have digits : Nat.ofDigitChars 10 (labelSuffix m) 0 = Nat.ofDigitChars 10 (labelSuffix n) 0 :=
    congrArg (Nat.ofDigitChars 10 · 0) h
  have number (k : Nat) : Nat.ofDigitChars 10 (labelSuffix k) 0 = k := by
    unfold labelSuffix
    split
    · next hk => exact hk.symm
    · exact Nat.ofDigitChars_ten_toDigits
  rwa [number, number] at digits

theorem toList_labelAt (i : Nat) :
    (labelAt i).toList = (labels.getD (i % 4) "").toList ++ labelSuffix (i / 4) := by
  unfold labelAt labelSuffix
  by_cases h : i / 4 = 0
  · simp [h]
  · simp [h, Nat.toList_repr]

theorem length_letter : ∀ a < 4, (labels.getD a "").toList.length = 1 := by
  decide

theorem letter_inj : ∀ a < 4, ∀ b < 4, labels.getD a "" = labels.getD b "" → a = b := by
  decide

/-- The letter tells the place among four channels, and what stands behind it which four. -/
theorem labelAt_injective : Function.Injective labelAt := by
  intro i j h
  have hi : i % 4 < 4 := Nat.mod_lt i (by decide)
  have hj : j % 4 < 4 := Nat.mod_lt j (by decide)
  have ht := congrArg String.toList h
  rw [toList_labelAt, toList_labelAt] at ht
  obtain ⟨hletter, hsuffix⟩ := List.append_inj ht (by rw [length_letter _ hi, length_letter _ hj])
  have place : i % 4 = j % 4 := letter_inj _ hi _ hj (String.toList_inj.1 hletter)
  have four : i / 4 = j / 4 := labelSuffix_injective hsuffix
  rw [← Nat.div_add_mod i 4, ← Nat.div_add_mod j 4, four, place]

/-! ## Values -/

theorem length_le_width (count : Nat) : count ≤ width count := by
  unfold width
  omega

theorem width_isLeast (count : Nat) : IsLeast {w | 4 ∣ w ∧ 4 ≤ w ∧ count ≤ w} (width count) := by
  unfold width
  refine ⟨⟨⟨_, Nat.mul_comm _ 4⟩, by omega, by omega⟩, ?_⟩
  rintro w ⟨⟨k, rfl⟩, hfour, hcount⟩
  omega

/-- The channels of values hold the values. -/
theorem values_ofValues (vs : List Scalar) : (ofValues vs).values = vs := by
  obtain ⟨k, hk⟩ : ∃ k, width vs.length = vs.length + k :=
    Nat.exists_eq_add_of_le (length_le_width _)
  have hhigh : (List.range k).filterMap (fun i => vs[vs.length + i]?) = [] := by
    simp
  rw [values, ofValues, hk, List.filterMap_map, List.range_add, List.filterMap_append,
    List.filterMap_map]
  exact (congrArg₂ _ (filterMap_range_getElem? vs) hhigh).trans (List.append_nil vs)

theorem length_channels (vs : List Scalar) :
    (ofValues vs).channels.length = width vs.length := by
  simp [ofValues]

theorem channels_getElem (vs : List Scalar) (i : Fin (ofValues vs).channels.length) :
    (ofValues vs).channels[i] = ⟨labelAt i, vs[i.val]?⟩ := by
  rw [Fin.getElem_fin]
  simp [ofValues]

theorem names_nodup (vs : List Scalar) : (ofValues vs).names.Nodup := by
  have labelled : (ofValues vs).names = (List.range (width vs.length)).map labelAt := by
    simp [names, ofValues, Function.comp_def]
  rw [labelled]
  exact List.nodup_range.map labelAt_injective

/-- A label leads to no channel before the one that it was made for. -/
theorem channel?_labelAt (vs : List Scalar) {i : Nat} (h : i < width vs.length) :
    (ofValues vs).channel? (labelAt i) = vs[i]? := by
  have first : (List.range (width vs.length)).find? (fun j => labelAt j == labelAt i) = some i := by
    refine List.find?_range_eq_some.2 ⟨beq_self_eq_true _, List.mem_range.2 h, fun j hj => ?_⟩
    have apart : labelAt j ≠ labelAt i := labelAt_injective.ne (Nat.ne_of_lt hj)
    simpa using apart
  rw [channel?, ofValues, List.find?_map]
  simp only [Function.comp_def, first, Option.map_some, Option.bind_some]

/-- Channels lose and confuse no values. There are as many channels as the least multiple of four
that is at least four and no less than the values, no two have one label, each holds the value at
its place, or none beyond the values, which is what its label leads to, and the values that are
there are those that were given. -/
theorem ofValues_channels (vs : List Scalar) :
    IsLeast {w | 4 ∣ w ∧ 4 ≤ w ∧ vs.length ≤ w} (ofValues vs).channels.length ∧
    (ofValues vs).names.Nodup ∧
    (∀ i : Fin (ofValues vs).channels.length,
      (ofValues vs).channels[i].value = vs[i.val]? ∧
      (ofValues vs).channel? (ofValues vs).channels[i].name = vs[i.val]?) ∧
    (ofValues vs).values = vs := by
  refine ⟨?_, names_nodup vs, fun i => ?_, values_ofValues vs⟩
  · rw [length_channels]
    exact width_isLeast vs.length
  · rw [channels_getElem]
    exact ⟨rfl, channel?_labelAt vs (Nat.lt_of_lt_of_eq i.isLt (length_channels vs))⟩

end MultiChannel

end NodeScript
