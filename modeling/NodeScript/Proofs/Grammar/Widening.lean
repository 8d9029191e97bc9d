import NodeScript.Proofs.Grammar.Remaining

/-!
# Wider readings

A reading that does what another does, but may also read something where the other reads nothing.
Repeated, the wider one goes on where the other stops: either they read the same, or the narrow one
has left tokens at which something wider begins.
-/

namespace NodeScript.Descent

/-- The second reading does what the first does, or reads something of its own where tokens begin
that the first does not read. -/
def Widens (f f' : Descent) (begins : List Token → Prop) (own : Tree → Prop) : Prop :=
  ∀ ts, f' ts = f ts ∨ f ts = none ∧ begins ts ∧ ∃ t rest, f' ts = some (t, rest) ∧ own t

variable {f f' : Descent} {begins : List Token → Prop} {own : Tree → Prop}

/-- A reading that reads all that another reads widens it by what else it reads. -/
theorem widens_of_mono (h : ∀ {ts r}, f ts = some r → f' ts = some r)
    (hown : ∀ {ts t rest}, f' ts = some (t, rest) → begins ts ∧ own t) :
    Widens f f' begins own := by
  intro ts
  match hf : f ts, hf' : f' ts with
  | some taken, _ => exact .inl (by rw [← hf', h hf])
  | none, none => exact .inl rfl
  | none, some (t, rest) => exact .inr ⟨rfl, (hown hf').1, t, rest, rfl, (hown hf').2⟩

theorem Widens.rounds (h : Widens f f' begins own) (n : Nat) (ts : List Token) :
    rounds f' n ts = rounds f n ts ∨
      begins (rounds f n ts).2 ∧ ∃ t ∈ (rounds f' n ts).1, own t := by
  induction n generalizing ts with
  | zero => exact .inl rfl
  | succ n ih =>
      simp only [Descent.rounds]
      -- at the first place where they differ the narrow one stops
      rcases h ts with hf | ⟨hf, hb, t, rest, hf', ht⟩
      · rw [hf]
        cases f ts with
        | none => exact .inl rfl
        | some taken =>
            obtain ⟨t, rest⟩ := taken
            by_cases hs : rest.length = ts.length
            · exact .inl (by simp [hs])
            · simp only [hs, if_false]
              rcases ih rest with he | ⟨hb, t', hm, ht'⟩
              · exact .inl (by rw [he])
              · exact .inr ⟨hb, t', List.mem_cons_of_mem _ hm, ht'⟩
      · rw [hf, hf']
        refine .inr ⟨hb, t, ?_, ht⟩
        by_cases hs : rest.length = ts.length <;> simp [hs]

theorem mem_rounds {good : Tree → Prop} (h : ∀ ts t rest, f ts = some (t, rest) → good t) (n : Nat)
    (ts : List Token) : ∀ t ∈ (Descent.rounds f n ts).1, good t := by
  induction n generalizing ts with
  | zero => simp [Descent.rounds]
  | succ n ih =>
      simp only [Descent.rounds]
      cases hf : f ts with
      | none => simp
      | some taken =>
          obtain ⟨t, rest⟩ := taken
          by_cases hs : rest.length = ts.length
          · simpa [hs] using h ts t rest hf
          · simpa [hs] using ⟨h ts t rest hf, ih rest⟩

/-- Read once or more, the wider reading gives the same, or something of its own among what it
reads, and then the other has stopped where something of that kind begins. -/
theorem Widens.oneOrMore (h : Widens f f' begins own) (good : Tree → Prop)
    (hg : ∀ ts t rest, f' ts = some (t, rest) → good t) (limit : Nat) (ts : List Token) :
    oneOrMore limit f' ts = oneOrMore limit f ts ∨
      (∀ t rest, oneOrMore limit f ts = some (t, rest) → begins rest) ∧
        ∃ trees rest, oneOrMore limit f' ts = some ((Tree.list trees).flatten, rest) ∧
          (∀ t ∈ trees, good t) ∧ ∃ t ∈ trees, own t := by
  simp only [Descent.oneOrMore]
  rcases h ts with hf | ⟨hf, -, t, rest, hf', ht⟩
  · rw [hf]
    cases ht : f ts with
    | none => exact .inl rfl
    | some taken =>
        obtain ⟨t, rest⟩ := taken
        by_cases hs : rest.length = ts.length
        · exact .inl (by simp [hs])
        · simp only [hs, if_false]
          rcases h.rounds limit rest with he | ⟨hb, t', hm, ht'⟩
          · exact .inl (by rw [he])
          · refine .inr ⟨fun t'' rest' he => ?_, _, _, rfl, ?_, t', List.mem_cons_of_mem _ hm, ht'⟩
            · cases he
              exact hb
            · exact List.forall_mem_cons.2 ⟨hg ts t rest (hf.trans ht), mem_rounds hg limit rest⟩
  · rw [hf, hf']
    refine .inr ⟨by simp, _, _, rfl, ?_, t, List.mem_cons_self, ht⟩
    refine List.forall_mem_cons.2 ⟨hg ts t rest hf', ?_⟩
    by_cases hs : rest.length = ts.length
    · simp [hs]
    · simpa only [hs, if_false] using mem_rounds hg limit rest

/-- What has been read once or more has been read once. -/
theorem eq_some_of_oneOrMore {limit : Nat} {ts : List Token} {r : Tree × List Token}
    (h : Descent.oneOrMore limit f ts = some r) : ∃ r', f ts = some r' := by
  unfold Descent.oneOrMore at h
  cases hf : f ts with
  | none => simp [hf] at h
  | some r' => exact ⟨r', rfl⟩

end NodeScript.Descent
