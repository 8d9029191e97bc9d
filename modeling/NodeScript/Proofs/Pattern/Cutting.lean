import NodeScript.Proofs.Pattern.Following

/-!
# Texts that are cut off

A pattern without anchors does not see what follows its match, so it also matches where that is cut
off.
-/

namespace NodeScript.Pattern

/-- Whether matches depend on nothing but their own text, when it is easily seen. Rounds without a
bound must read something, as their number depends on how much text there is. -/
def isBlind : Pattern → Bool
  | .empty => true
  | .one _ => true
  | .anchor _ => false
  | .seq first second => first.isBlind && second.isBlind
  | .alt first second => first.isBlind && second.isBlind
  | .rep body _ extra _ => body.isBlind && (extra.isSome || !body.nullable)
  | .group _ body => body.isBlind

/-- Ways from a place to others after it, which are also there where less follows. -/
structure Blind (ways : Cursor → List Cursor) : Prop where
  follows : ∀ {c c'}, c' ∈ ways c → Follows (fun _ => True) c c'
  cut : ∀ {c : Cursor} {text rest rest' : List Char}, rest'.length ≤ rest.length →
    c.skip text rest ∈ ways (c.skip [] (text ++ rest)) →
    c.skip text rest' ∈ ways (c.skip [] (text ++ rest'))

namespace Blind

variable {f g : Cursor → List Cursor}

theorem stay : Blind fun c => [c] := by
  constructor
  · intro c c' h
    obtain rfl : c' = c := by simpa using h
    exact .refl _
  · intro c text rest rest' _ h
    have h : c.skip text rest = c.skip [] (text ++ rest) := List.mem_singleton.1 h
    obtain rfl : text = [] := by simpa using congrArg (List.length ∘ Cursor.rest) h
    exact .head _

theorem either (hf : Blind f) (hg : Blind g) : Blind fun c => f c ++ g c := by
  constructor
  · intro c c' h
    rcases List.mem_append.1 h with h | h
    · exact hf.follows h
    · exact hg.follows h
  · intro c text rest rest' hl h
    rcases List.mem_append.1 h with h | h
    · exact List.mem_append_left _ (hf.cut hl h)
    · exact List.mem_append_right _ (hg.cut hl h)

/-- One way after another. -/
theorem andThen (hf : Blind f) (hg : Blind g) : Blind fun c => (f c).flatMap g := by
  constructor
  · intro c c' h
    obtain ⟨mid, h₁, h₂⟩ := List.mem_flatMap.1 h
    exact (hf.follows h₁).trans (hg.follows h₂)
  · intro c text rest rest' hl h
    obtain ⟨mid, h₁, h₂⟩ := List.mem_flatMap.1 h
    obtain ⟨first, hr, hm, -⟩ := hf.follows h₁
    obtain ⟨second, hr', -, -⟩ := hg.follows h₂
    rw [Cursor.skip_rest] at hr hr'
    obtain rfl : text = first ++ second := by
      rw [hr', ← List.append_assoc] at hr
      exact List.append_cancel_right hr
    rw [hr', Cursor.skip_skip, List.nil_append] at hm
    subst hm
    rw [List.append_assoc] at h₁
    have before : c.skip first (second ++ rest') ∈ f (c.skip [] (first ++ (second ++ rest'))) :=
      hf.cut (by simpa using hl) h₁
    have after : (c.skip first []).skip second rest' ∈
        g ((c.skip first []).skip [] (second ++ rest')) := hg.cut hl (by simpa using h₂)
    rw [← List.append_assoc] at before
    exact List.mem_flatMap.2 ⟨_, before, by simpa using after⟩

/-- Rounds that all read something, as many as there can be. -/
theorem rounds {greedy : Bool} (hs : ∀ {c c'}, c' ∈ f c → c'.rest.length < c.rest.length)
    (hr : ∀ count, Blind (endsAtMost greedy f count)) :
    Blind fun c => endsAtMost greedy f c.rest.length c := by
  constructor
  · exact fun h => (hr _).follows h
  · intro c text rest rest' hl h
    have fewer := (hr _).cut hl h
    rwa [endsAtMost_eq hs (by simpa using hl) (Nat.le_refl _)] at fewer

theorem compositional : Compositional Blind :=
  ⟨stay, either, andThen, rounds⟩

end Blind

theorem blind_ends (p : Pattern) (h : p.isBlind) : Blind p.ends := by
  induction p with
  | empty => exact .stay
  | one set =>
      refine ⟨fun hm => (ends_follow _ hm).weaken fun _ _ => trivial, ?_⟩
      intro c text rest rest' _ hm
      cases text with
      | nil =>
          have := length_lt_of_mem_ends rfl hm
          simp at this
      | cons x text =>
          obtain ⟨hx, he⟩ : set.accepts x ∧ c.skip (x :: text) rest = c.skip [x] (text ++ rest) := by
            simpa [ends] using hm
          obtain rfl : text = [] := by simpa using congrArg (List.length ∘ Cursor.rest) he
          simp [ends, hx]
  | anchor a => cases h
  | seq first second ih ih' =>
      obtain ⟨hf, hs⟩ := Bool.and_eq_true_iff.1 h
      exact (ih hf).andThen (ih' hs)
  | alt first second ih ih' =>
      obtain ⟨hf, hs⟩ := Bool.and_eq_true_iff.1 h
      exact (ih hf).either (ih' hs)
  | rep body least extra greedy ih =>
      obtain ⟨hb, he⟩ := Bool.and_eq_true_iff.1 h
      exact Blind.compositional.rep (ih hb) he least greedy
  | group _ body ih => exact ih h

end NodeScript.Pattern
