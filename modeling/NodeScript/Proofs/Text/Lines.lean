import Mathlib.Data.List.Infix
import NodeScript.Text.Blank
import NodeScript.Text.Lines

/-!
# Trimming and cutting lines

What is left of a text without the blanks around it, where a text is cut at a mark, and what its
lines are.
-/

namespace NodeScript.Text

variable {cs before after : List Char}

/-! ## Blanks -/

def AllBlank (cs : List Char) : Prop :=
  ∀ c ∈ cs, isBlank c

theorem AllBlank.nil : AllBlank [] := by
  simp [AllBlank]

theorem AllBlank.singleton {c : Char} (h : isBlank c) : AllBlank [c] := by
  simpa [AllBlank] using h

/-- No blank stands at either end. -/
structure IsTrimmed (cs : List Char) : Prop where
  first : ∀ c ∈ cs.head?, isBlank c = false
  last : ∀ c ∈ cs.getLast?, isBlank c = false

theorem AllBlank.dropWhile_append (h : AllBlank before) (cs : List Char) :
    (before ++ cs).dropWhile isBlank = cs.dropWhile isBlank :=
  List.dropWhile_append_of_pos h

theorem AllBlank.dropWhile (h : AllBlank cs) : cs.dropWhile isBlank = [] := by
  have := h.dropWhile_append []
  rwa [List.append_nil] at this

theorem IsTrimmed.nil : IsTrimmed [] := by
  constructor <;> simp

theorem dropWhile_isBlank (h : ∀ c ∈ cs.head?, isBlank c = false) : cs.dropWhile isBlank = cs := by
  cases cs with
  | nil => rfl
  | cons c cs => exact List.dropWhile_cons_of_neg (by simp [h c rfl])

/-- The blanks around a text come off, and no more. -/
theorem trimChars_append (hb : AllBlank before) (h : IsTrimmed cs) (ha : AllBlank after) :
    trimChars (before ++ (cs ++ after)) = cs := by
  have behind : AllBlank after.reverse := fun c hc => ha c (List.mem_reverse.1 hc)
  rw [trimChars, hb.dropWhile_append]
  cases cs with
  | nil => simp [ha.dropWhile]
  | cons c cs =>
      have last : ∀ x ∈ (c :: cs).reverse.head?, isBlank x = false := by
        rw [List.head?_reverse]
        exact h.last
      have first : (c :: cs ++ after).dropWhile isBlank = c :: cs ++ after :=
        dropWhile_isBlank h.first
      rw [first, List.reverse_append, behind.dropWhile_append, dropWhile_isBlank last,
        List.reverse_reverse]

theorem AllBlank.trimChars (h : AllBlank cs) : trimChars cs = [] := by
  have := trimChars_append h .nil .nil
  rwa [List.append_nil, List.append_nil] at this

theorem trimChars_concat {x : Char} (hx : isBlank x) (cs : List Char) :
    trimChars (cs ++ [x]) = trimChars cs := by
  rw [trimChars, trimChars, List.dropWhile_append]
  split
  · rename_i h
    simp [List.isEmpty_iff.1 h, hx]
  · simp [hx]

/-! ## Marks -/

/-- A text is cut at the first mark in it. -/
theorem splitOnce?_append {mark : List Char} (hm : mark ≠ [])
    (h : ∀ rest, rest <:+ before → rest ≠ [] → ¬mark <+: rest ++ (mark ++ after)) :
    splitOnce? mark (before ++ (mark ++ after)) = some (before, after) := by
  induction before with
  | nil =>
      obtain ⟨c, mark, rfl⟩ := List.exists_cons_of_ne_nil hm
      simp [splitOnce?]
  | cons c before ih =>
      have here : mark.isPrefixOf (c :: (before ++ (mark ++ after))) = false :=
        Bool.eq_false_iff.2 fun hp =>
          h _ (List.suffix_refl _) (List.cons_ne_nil _ _) (List.isPrefixOf_iff_prefix.1 hp)
      have later := ih fun rest hr => h rest (hr.trans (List.suffix_cons c before))
      rw [List.cons_append, splitOnce?, here, later]
      rfl

/-! ## Lines -/

/-- A line feed ends a line, and a carriage return before it goes with it. -/
theorem exists_lines_eq_cons {line : List Char} (h : '\n' ∉ line) (rest : List Char) :
    ∃ line', (line = line' ∨ line = line' ++ ['\r']) ∧
      lines (line ++ '\n' :: rest) = line' :: lines rest := by
  by_cases hr : line.getLast? = some '\r'
  · obtain ⟨line', rfl⟩ := List.getLast?_eq_some_iff.1 hr
    refine ⟨line', .inr rfl, ?_⟩
    rw [lines, linesFrom_append _ _ h]
    simp [lines, linesFrom]
  · exact ⟨line, .inl rfl, lines_line rest h hr⟩

/-- Without a line feed a text is one line, or none when it is empty. -/
theorem lines_of_notMem {line : List Char} (h : '\n' ∉ line) :
    lines line = if line.isEmpty then [] else [line] := by
  have := linesFrom_append [] [] h
  rw [List.append_nil, List.append_nil] at this
  simp [lines, this, linesFrom]

end NodeScript.Text
