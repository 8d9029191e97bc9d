import NodeScript.Proofs.Pattern.Sequences
import NodeScript.Proofs.Token.Table

/-!
# What rows take

A row takes what its pattern takes first at the start of the rest, and accepts a text that its
pattern can take as a whole.
-/

namespace NodeScript

open Pattern

theorem Pattern.atStartOnly_concat (parts : List Pattern) :
    (concat (.anchor .textStart :: parts)).atStartOnly = true := by
  unfold concat
  simp only [List.flatMap_cons, Pattern.parts, List.singleton_append]
  cases List.flatMap Pattern.parts parts <;> rfl

/-- A pattern tied to the start of a text ends where what follows the tie ends. -/
theorem Pattern.ends_concat_textStart (parts : List Pattern) (text : List Char) :
    (concat (.anchor .textStart :: parts)).ends (.start text) = endsAll parts (.start text) := by
  simp [ends_concat, endsAll, ends, Anchor.holds, Cursor.start]

namespace TokenRow

variable {name pattern tag : String} {parts : List Pattern}

theorem find?_scanner (rest : List Char) :
    (ofParts name pattern tag parts).scanner.find? rest =
      (endsAll parts (.start rest)).head?.map fun c => (0, c.offset) := by
  rw [← ends_concat_textStart]
  simp only [ofParts, Finder.find?, Finder.pattern, atStartOnly_concat, if_true, Finder.matchAt?,
    matchAt?_eq, Option.map_map]
  rfl

/-- A row takes a text that its parts take first. -/
theorem scan?_of_takesFirst {text rest : List Char} (hne : text ≠ [])
    (h : TakesFirst parts text rest) :
    (ofParts name pattern tag parts).scan? (text ++ rest) = some text := by
  simp [scan?, find?_scanner, h (.start (text ++ rest)) rfl, List.length_pos_iff.2 hne]

/-- What a row takes is up to the first end of its parts. -/
theorem head?_of_scan? {rest text : List Char}
    (h : (ofParts name pattern tag parts).scan? rest = some text) :
    text ≠ [] ∧ ∃ after, rest = text ++ after ∧
      (endsAll parts (.start rest)).head? = some ((Cursor.start rest).skip text after) := by
  rw [scan?, find?_scanner] at h
  match hc : endsAll parts (.start rest) with
  | [] => simp [hc] at h
  | c :: cs =>
      have hmem : c ∈ endsAll parts (.start rest) := by simp [hc]
      obtain ⟨taken, ht, hcs, -⟩ := endsAll_follow hmem
      have hr : rest = taken ++ c.rest := ht
      have ho : c.offset = taken.length := by
        rw [hcs]
        simp
      simp only [hc, List.head?_cons, Option.map_some, ho] at h
      by_cases hl : 0 < taken.length
      · obtain rfl : taken = text := by simpa [hl, hr] using h
        exact ⟨List.length_pos_iff.1 hl, c.rest, hr, by rw [List.head?_cons, ← hcs]⟩
      · simp [hl] at h

/-- A row takes nothing where its parts cannot match. -/
theorem scan?_eq_none_of_fails {rest : List Char} (h : Fails (concat parts) rest) :
    (ofParts name pattern tag parts).scan? rest = none := by
  have h := h (.start rest) rfl
  rw [ends_concat] at h
  simp [scan?, find?_scanner, h]

/-- Whether what a row takes can begin with a character. -/
def begins (row : TokenRow) (x : Char) : Bool :=
  row.scanner.pattern.begins x

/-- A row takes nothing where it cannot begin with the next character. -/
theorem scan?_eq_none_of_begins {x : Char} {rest : List Char}
    (hb : (ofParts name pattern tag parts).begins x = false) :
    (ofParts name pattern tag parts).scan? (x :: rest) = none := by
  match h : (ofParts name pattern tag parts).scan? (x :: rest) with
  | none => rfl
  | some text =>
      obtain ⟨hne, after, hr, ht⟩ := head?_of_scan? h
      have hm := List.mem_of_mem_head? ht
      rw [← ends_concat_textStart] at hm
      rcases begins_of_mem_ends _ hm with ⟨_, hc⟩ | ⟨y, text', rest', hc, hy, _⟩
      · have := congrArg Cursor.offset hc
        simp [hne] at this
      · obtain ⟨rfl, _⟩ := List.cons.inj (show x :: rest = y :: (text' ++ rest') from hc)
        exact absurd (hb.symm.trans hy) (by simp)

/-- A row accepts a text when its parts can take the whole of it. -/
theorem accepts_iff (text : String) : (ofParts name pattern tag parts).accepts text = true ↔
    ∃ c ∈ endsAll parts (.start text.toList), c.rest = [] := by
  have h : endsAll (parts ++ [.anchor .textEnd]) (.start text.toList) =
      (endsAll parts (.start text.toList)).filter fun c => c.rest.isEmpty := by
    rw [endsAll_append]
    generalize endsAll parts _ = cs
    induction cs with
    | nil => rfl
    | cons c cs ih =>
        simp only [List.flatMap_cons, ih, endsAll_singleton, ends, Anchor.holds, List.filter_cons]
        by_cases he : c.rest.isEmpty = true <;> simp [he]
  simp only [accepts, ofParts, Finder.matchesIn, Finder.find?, Finder.pattern, atStartOnly_concat,
    if_true, Finder.matchAt?, matchAt?_eq, ends_concat_textStart, h, Option.isSome_map]
  simp

end TokenRow

end NodeScript
