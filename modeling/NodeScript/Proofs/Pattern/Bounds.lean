import NodeScript.Proofs.Pattern.Ends

/-!
# Matches end in the text

However a match is looked for, it does not go beyond the end of the text.
-/

namespace NodeScript

theorem Pattern.matchAt?_le {p : Pattern} {c : Cursor} {stop : Nat}
    (h : p.matchAt? c = some stop) : stop ≤ c.offset + c.rest.length := by
  rw [matchAt?_eq] at h
  obtain ⟨c', hc, rfl⟩ := Option.map_eq_some_iff.1 h
  obtain ⟨text, hr, hs, -⟩ := ends_follow p (List.mem_of_mem_head? hc)
  rw [hs, hr]
  simp

namespace Program

theorem ends_here {accepted : Bool} {best : Option Nat} {offset stop : Nat}
    (h : (if accepted then some offset else best) = some stop) :
    best = some stop ∨ stop ≤ offset := by
  cases accepted with
  | true =>
      obtain rfl : offset = stop := by simpa using h
      exact .inr (Nat.le_refl _)
  | false => exact .inl (by simpa using h)

/-- A run ends in the text, unless it has ended before. -/
theorem runFrom_le {states : Array ProgramState} {todo : List Nat} {best : Option Nat}
    {before : Option Char} {offset stop : Nat} {rest : List Char}
    (h : runFrom states todo best before offset rest = some stop) :
    best = some stop ∨ stop ≤ offset + rest.length := by
  induction rest generalizing todo best before offset with
  | nil => exact ends_here h
  | cons x rest ih =>
      simp only [runFrom] at h
      rw [List.length_cons]
      split at h
      · exact (ends_here h).imp_right fun hle => by omega
      · rcases ih h with h | hle
        · exact (ends_here h).imp_right fun hle => by omega
        · exact .inr (by omega)

theorem matchAt?_le {p : Program} {c : Cursor} {stop : Nat} (h : p.matchAt? c = some stop) :
    stop ≤ c.offset + c.rest.length :=
  (runFrom_le h).resolve_left nofun

end Program

namespace Finder

theorem matchAt?_le {f : Finder} {c : Cursor} {stop : Nat} (h : f.matchAt? c = some stop) :
    stop ≤ c.offset + c.rest.length := by
  cases f with
  | steady p => exact Pattern.matchAt?_le h
  | program p code => exact Program.matchAt?_le h

theorem searchFrom_le {f : Finder} {before : Option Char} {offset start stop : Nat}
    {text : List Char} (h : f.searchFrom before offset text = some (start, stop)) :
    stop ≤ offset + text.length := by
  induction text generalizing before offset with
  | nil =>
      obtain ⟨stop', hm, he⟩ := Option.map_eq_some_iff.1 h
      obtain ⟨rfl, rfl⟩ := Prod.mk.inj he
      exact matchAt?_le hm
  | cons x rest ih =>
      simp only [searchFrom] at h
      match hm : f.matchAt? ⟨before, x :: rest, offset⟩ with
      | some stop' =>
          rw [hm] at h
          obtain ⟨rfl, rfl⟩ := Prod.mk.inj (Option.some.inj h)
          exact matchAt?_le hm
      | none =>
          rw [hm] at h
          have := ih h
          rw [List.length_cons]
          omega

theorem find?_le {f : Finder} {text : List Char} {start stop : Nat}
    (h : f.find? text = some (start, stop)) : stop ≤ text.length := by
  unfold find? at h
  by_cases ha : f.pattern.atStartOnly
  · rw [if_pos ha] at h
    obtain ⟨stop', hm, he⟩ := Option.map_eq_some_iff.1 h
    obtain ⟨rfl, rfl⟩ := Prod.mk.inj he
    simpa using matchAt?_le hm
  · rw [if_neg ha] at h
    simpa using searchFrom_le h

end Finder

end NodeScript
