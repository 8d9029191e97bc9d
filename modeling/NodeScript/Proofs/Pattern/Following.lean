import Mathlib.Data.List.Basic
import NodeScript.Proofs.Pattern.Sequences

/-!
# Texts that go on

Where a pattern never reads a character, a text followed by that character is matched as the text
alone is: the ends are the same places, now with more after them. Ways to match are put together
from others, and a property of them that this keeps (`Compositional`) is one of all patterns whose
leaves have it.
-/

namespace NodeScript

/-- The same place in a text that goes on. -/
def Cursor.followedBy (c : Cursor) (more : List Char) : Cursor :=
  ⟨c.before, c.rest ++ more, c.offset⟩

namespace Pattern

/-- Whether matches never tell the end of a text from a character there, when it is easily seen.
Rounds without a bound must read something, as their number depends on how much text there is. -/
def stopsAt (x : Char) : Pattern → Bool
  | .empty => true
  | .one set => !set.accepts x
  | .anchor a => a == .textStart || a == .wordBoundary
  | .seq first second => first.stopsAt x && second.stopsAt x
  | .alt first second => first.stopsAt x && second.stopsAt x
  | .rep body _ extra _ => body.stopsAt x && (extra.isSome || !body.nullable)
  | .group _ body => body.stopsAt x

/-- Rounds that all read something are no more than the characters there are. -/
theorem endsAtMost_eq {body : Cursor → List Cursor}
    (h : ∀ {c c'}, c' ∈ body c → c'.rest.length < c.rest.length) {greedy : Bool}
    {count count' : Nat} {c : Cursor} (hc : c.rest.length ≤ count) (hc' : c.rest.length ≤ count') :
    endsAtMost greedy body count c = endsAtMost greedy body count' c := by
  have none {c : Cursor} (hc : c.rest.length ≤ 0) : body c = [] :=
    List.eq_nil_iff_forall_not_mem.2 fun c' hm => by
      have := h hm
      omega
  induction count generalizing count' c with
  | zero => cases count' <;> simp [endsAtMost, none hc]
  | succ count ih =>
      cases count' with
      | zero => simp [endsAtMost, none hc']
      | succ count' =>
          have rounds : (body c).flatMap (endsAtMost greedy body count) =
              (body c).flatMap (endsAtMost greedy body count') :=
            List.flatMap_congr fun c' hm => by
              have := h hm
              exact ih (by omega) (by omega)
          simp only [endsAtMost, rounds]

theorem length_lt_of_mem_ends {p : Pattern} (hn : p.nullable = false) {c c' : Cursor}
    (h : c' ∈ p.ends c) : c'.rest.length < c.rest.length := by
  rcases begins_of_mem_ends p h with ⟨hn', _⟩ | ⟨x, text, rest, hc, _, rfl⟩
  · exact absurd (hn.symm.trans hn') (by simp)
  · simp only [hc, List.length_append, List.length_cons, Cursor.skip_rest]
    omega

/-- A property of ways from a place to others that ways have when those they are put together from
have it. -/
structure Compositional (P : (Cursor → List Cursor) → Prop) : Prop where
  stay : P fun c => [c]
  either {f g : Cursor → List Cursor} : P f → P g → P fun c => f c ++ g c
  andThen {f g : Cursor → List Cursor} : P f → P g → P fun c => (f c).flatMap g
  /-- Rounds that all read something, as many as there can be. -/
  rounds {f : Cursor → List Cursor} {greedy : Bool} :
    (∀ {c c'}, c' ∈ f c → c'.rest.length < c.rest.length) →
    (∀ count, P (endsAtMost greedy f count)) → P fun c => endsAtMost greedy f c.rest.length c

namespace Compositional

variable {P : (Cursor → List Cursor) → Prop} {f : Cursor → List Cursor}

theorem times (hP : Compositional P) (hf : P f) (count : Nat) : P (endsTimes f count) := by
  induction count with
  | zero => exact hP.stay
  | succ count ih => exact hP.andThen hf ih

theorem atMost (hP : Compositional P) (hf : P f) (greedy : Bool) (count : Nat) :
    P (endsAtMost greedy f count) := by
  induction count with
  | zero => exact hP.stay
  | succ count ih =>
      cases greedy with
      | true => exact hP.either (hP.andThen hf ih) hP.stay
      | false => exact hP.either hP.stay (hP.andThen hf ih)

theorem rep (hP : Compositional P) {body : Pattern} (hb : P body.ends) {extra : Option Nat}
    (he : extra.isSome || !body.nullable) (least : Nat) (greedy : Bool) :
    P (Pattern.rep body least extra greedy).ends := by
  cases extra with
  | some extra => exact hP.andThen (hP.times hb least) (hP.atMost hb greedy extra)
  | none =>
      have hn : body.nullable = false := by simpa using he
      exact hP.andThen (hP.times hb least)
        (hP.rounds (length_lt_of_mem_ends hn) (hP.atMost hb greedy))

end Compositional

/-- That a text goes on changes nothing but the places. -/
theorem compositional_followedBy (more : List Char) : Compositional fun ways =>
    ∀ c : Cursor, ways (c.followedBy more) = (ways c).map (·.followedBy more) where
  stay _ := rfl
  either hf hg c := by simp only [hf, hg, List.map_append]
  andThen hf hg c := by simp only [hf, List.flatMap_map, hg, List.map_flatMap]
  rounds hs hr c := by
    have round := hr (c.followedBy more).rest.length c
    rwa [endsAtMost_eq hs (c := c) (by simp [Cursor.followedBy]) (Nat.le_refl _)] at round

variable {x : Char}

theorem holds_followedBy (hx : Text.isWordChar x = false) (more : List Char) {a : Anchor}
    (h : (Pattern.anchor a).stopsAt x) (c : Cursor) :
    a.holds (c.followedBy (x :: more)) = a.holds c := by
  simp only [stopsAt, Bool.or_eq_true, beq_iff_eq] at h
  rcases h with rfl | rfl
  · rfl
  · cases hr : c.rest <;>
      simp [Anchor.holds, Cursor.followedBy, Cursor.wordBefore, Cursor.wordAfter, hr, hx]

/-- A text followed by a character that a pattern never reads has the same ends. -/
theorem ends_followedBy (hx : Text.isWordChar x = false) (more : List Char) (p : Pattern)
    (h : p.stopsAt x) (c : Cursor) :
    p.ends (c.followedBy (x :: more)) = (p.ends c).map (·.followedBy (x :: more)) := by
  induction p generalizing c with
  | empty => rfl
  | one set =>
      have hs : set.accepts x = false := by simpa [stopsAt] using h
      match hr : c.rest with
      | [] => simp [ends, Cursor.followedBy, hr, hs]
      | y :: rest =>
          by_cases hy : set.accepts y <;>
            simp [ends, Cursor.followedBy, Cursor.skip, hr, hy]
  | anchor a =>
      simp only [ends, holds_followedBy hx more h]
      by_cases ha : a.holds c <;> simp [ha]
  | seq first second ih ih' =>
      obtain ⟨hf, hs⟩ := Bool.and_eq_true_iff.1 h
      exact (compositional_followedBy _).andThen (ih hf) (ih' hs) c
  | alt first second ih ih' =>
      obtain ⟨hf, hs⟩ := Bool.and_eq_true_iff.1 h
      exact (compositional_followedBy _).either (ih hf) (ih' hs) c
  | rep body least extra greedy ih =>
      obtain ⟨hb, he⟩ := Bool.and_eq_true_iff.1 h
      exact (compositional_followedBy _).rep (ih hb) he least greedy c
  | group number body ih => exact ih h c

end Pattern

end NodeScript
