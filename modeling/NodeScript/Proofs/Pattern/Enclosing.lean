import NodeScript.Proofs.Pattern.Readers

/-!
# Patterns in brackets

A pattern that reads by itself reads as the same pattern in brackets, as it closes no bracket that
it does not open. So a tie to the start that stands before the brackets holds for all of it
(`read?_enclosed`).
-/

namespace NodeScript.Pattern

namespace Progress

/-- The same progress where an enclosing group is open in addition, outside of all others. -/
def enclosed (s : Progress) (mode : Mode) (group : OpenGroup) : Progress :=
  { s with outer := s.outer ++ [(mode, group)] }

variable {s s' : Progress} {mode : Mode} {group : OpenGroup} {cs rest : List Char}

theorem closeGroup?_enclosed (h : s.closeGroup? = some s') :
    (s.enclosed mode group).closeGroup? = some (s'.enclosed mode group) := by
  obtain ⟨m, g, _ | ⟨⟨m', g'⟩, outer⟩, names, groups⟩ := s
  · cases h
  · cases h
    rfl

theorem repeatLast?_enclosed {least : Nat} {extra : Option Nat}
    (h : s.repeatLast? least extra cs = some (s', rest)) :
    (s.enclosed mode group).repeatLast? least extra (cs ++ [')']) =
      some (s'.enclosed mode group, rest ++ [')']) := by
  unfold repeatLast? at h
  split at h
  · next hi =>
      have hi' : (s.enclosed mode group).group.items = _ := hi
      simp only [repeatLast?, hi']
      rcases cs with _ | ⟨c, cs⟩
      · cases h
        rfl
      · by_cases hc : c = '?'
        · subst hc
          cases h
          rfl
        · simp only [List.cons_append, List.cons.injEq, hc, false_and, imp_false, not_false_eq_true,
            implies_true] at h ⊢
          cases h
          rfl
  · cases h

theorem readGroup?_enclosed (h : readGroup? s cs = some (s', rest)) :
    readGroup? (s.enclosed mode group) (cs ++ [')']) =
      some (s'.enclosed mode group, rest ++ [')']) := by
  unfold readGroup? at h
  dsimp only at h
  split at h
  · obtain ⟨⟨name, after⟩, hn, h⟩ := Option.bind_eq_some_iff.1 h
    cases h
    simp only [List.cons_append, readGroup?, enclosed, readGroupName?_isEnclosable _ hn,
      Option.bind_eq_bind, Option.bind_some]
    rfl
  · cases h
  · cases h
  · next hb hn =>
      obtain ⟨⟨name, after⟩, hr, h⟩ := Option.bind_eq_some_iff.1 h
      cases h
      rw [List.cons_append, List.cons_append, readGroup?.eq_4 _ _ (append_ne ['='] (by decide) hb)
        (append_ne ['!'] (by decide) hn)]
      simp only [enclosed, readGroupName?_isEnclosable _ hr, Option.bind_eq_bind, Option.bind_some]
      rfl
  · next h₁ h₂ h₃ h₄ =>
      obtain ⟨⟨m, alone, after⟩, hs, h⟩ := Option.bind_eq_some_iff.1 h
      rw [List.cons_append, readGroup?.eq_5 _ _ (append_ne ['P', '<'] (by decide) h₁)
        (append_ne ['<', '='] (by decide) h₂) (append_ne ['<', '!'] (by decide) h₃)
        (append_ne ['<'] (by decide) h₄)]
      simp only [enclosed, readSettings?_append hs, Option.bind_eq_bind, Option.bind_some]
      cases alone <;> cases h <;> rfl
  · next h₁ h₂ h₃ h₄ h₅ =>
      cases h
      rw [readGroup?.eq_6 _ _ (append_ne ['?', 'P', '<'] (by decide) h₁)
        (append_ne ['?', '<', '='] (by decide) h₂) (append_ne ['?', '<', '!'] (by decide) h₃)
        (append_ne ['?', '<'] (by decide) h₄) (append_ne ['?'] (by decide) h₅)]
      rfl

/-- One step takes the same part off a text, with the same effect on the groups that the text
opens itself. -/
theorem step?_enclosed {c : Char} (h : step? s c cs = some (s', rest)) :
    step? (s.enclosed mode group) c (cs ++ [')']) =
      some (s'.enclosed mode group, rest ++ [')']) := by
  unfold step? at h ⊢
  split at h
  · exact readGroup?_enclosed h
  · obtain ⟨s', hs, he⟩ := Option.map_eq_some_iff.1 h
    cases he
    simp only [closeGroup?_enclosed hs, Option.map_some]
  · cases h
    rfl
  · exact repeatLast?_enclosed h
  · exact repeatLast?_enclosed h
  · exact repeatLast?_enclosed h
  · obtain ⟨⟨⟨least, extra⟩, after⟩, hc, h⟩ := Option.bind_eq_some_iff.1 h
    simp only [readCounts?_isEnclosable hc, Option.bind_eq_bind, Option.bind_some]
    exact repeatLast?_enclosed h
  · obtain ⟨⟨set, after⟩, hb, h⟩ := Option.bind_eq_some_iff.1 h
    cases h
    simp only [enclosed, readBracket?_isEnclosable _ hb, Option.bind_eq_bind, Option.bind_some]
    rfl
  · cases h
    rfl
  · cases h
    rfl
  · cases h
    rfl
  · obtain ⟨⟨element, after⟩, he, h⟩ := Option.bind_eq_some_iff.1 h
    simp only [readEscape?_isEnclosable he, Option.bind_eq_bind, Option.bind_some]
    cases element <;> cases h <;> rfl
  · cases h
    rfl

/-- What reads by itself reads alike before the end of an enclosing group, which then closes. -/
theorem readParts?_enclosed {limit limit' : Nat} (h : readParts? limit s cs = some s')
    (hl : limit < limit') :
    readParts? limit' (s.enclosed mode group) (cs ++ [')']) =
      (s'.enclosed mode group).closeGroup? := by
  obtain ⟨limit', rfl⟩ : ∃ n, limit' = n + 1 := ⟨limit' - 1, by omega⟩
  fun_induction readParts? limit s cs generalizing limit' with
  | case1 =>
      cases h
      simp only [List.nil_append, readParts?, step?]
      cases (s'.enclosed mode group).closeGroup? <;> simp [readParts?]
  | case2 => cases h
  | case3 limit s c cs s₁ rest hs ih =>
      rw [List.cons_append, readParts?, step?_enclosed hs]
      obtain ⟨limit', rfl⟩ : ∃ n, limit' = n + 1 := ⟨limit' - 1, by omega⟩
      exact ih h limit' (by omega)
  | case4 => cases h

end Progress

/-- The pattern of a text is that of the one group that is open to its end. -/
theorem exists_of_read? {cs : List Char} {p : Pattern} (h : read? cs = some p) :
    ∃ s, readParts? cs.length ⟨.initial, .empty none, [], [], 0⟩ cs = some s ∧ s.outer = [] ∧
      s.group.close.1 = p := by
  obtain ⟨s, hs, h⟩ := Option.bind_eq_some_iff.1 h
  obtain ⟨ho, he⟩ := Option.ite_none_right_eq_some.1 h
  simp only [Bool.and_eq_true, List.isEmpty_iff] at ho
  exact ⟨s, hs, ho.1.1, Option.some.inj he⟩

/-- A choice between a single branch is the branch. -/
theorem alternation_singleton {p : Pattern} (h : p.branches = [p]) : alternation [p] = p := by
  have hc : choice [p] = p := by simp [choice, h]
  have hf : factor? [p] = none := by cases hw : sequenceWords? p <;> simp [factor?, hw]
  simp [alternation, hc, h, hf]

theorem branches_concat_anchor (a : Anchor) (items : List Pattern) :
    (concat (.anchor a :: items)).branches = [concat (.anchor a :: items)] := by
  unfold concat
  simp only [List.flatMap_cons, parts, List.singleton_append]
  cases List.flatMap parts items <;> rfl

/-- In brackets after a tie to the start, what reads by itself reads as the same pattern, which the
tie goes before. -/
theorem read?_enclosed {cs : List Char} {p q : Pattern} (hq : read? cs = some q)
    (hp : read? (['^', '(', '?', ':'] ++ cs ++ [')']) = some p) :
    p = concat [.anchor .textStart, q] := by
  obtain ⟨s, hs, ho, rfl⟩ := exists_of_read? hq
  obtain ⟨s', hs', -, rfl⟩ := exists_of_read? hp
  obtain ⟨mode, group, outer, names, groups⟩ := s
  obtain rfl : outer = [] := ho
  -- the tie is read into the outermost group, and the brackets open another in the same mode
  have tied : readParts? (['^', '(', '?', ':'] ++ cs ++ [')']).length
      ⟨.initial, .empty none, [], [], 0⟩ (['^', '(', '?', ':'] ++ cs ++ [')']) =
        (Progress.mk mode group [(.initial, ⟨none, [], [.pattern (.anchor .textStart) 0]⟩)] names
          groups).closeGroup? := by
    refine .trans ?_ (Progress.readParts?_enclosed hs (Nat.lt_add_of_pos_right (Nat.succ_pos 2)))
    rw [List.length_append, List.length_append, Nat.add_right_comm, Nat.add_comm]
    rfl
  rw [tied] at hs'
  cases hs'
  exact alternation_singleton (branches_concat_anchor .textStart [group.close.1])

end NodeScript.Pattern
