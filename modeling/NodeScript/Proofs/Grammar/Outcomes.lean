import Mathlib.Data.List.Forall2
import NodeScript.Proofs.Grammar.Evaluator

/-!
# Outcomes of matching

What a match gives does not depend on the failures recorded before it: each way of matching has a
reading without diagnostics that gives the same trees, positions and failures.
-/

namespace NodeScript

/-- The match gives what the reading gives, whatever has been recorded before. -/
def Match.Gives (m : Match) (r : Reading) : Prop :=
  ∀ position d, (m position d).1 = r position

namespace Match

variable {input : Input}

theorem gives_fail (expected : String) : Gives (fail input expected) (.fail input expected) :=
  fun _ _ => rfl

theorem gives_one (expected : String) (test : Token → Bool) :
    Gives (one input expected test) (.one input expected test) := by
  intro position d
  unfold one Reading.one
  cases input.tokens[position]? with
  | none => rfl
  | some t => by_cases h : test t <;> simp [h, Reading.fail]

/-- A success of a match that gives a reading is a success of the reading. -/
theorem Gives.ok {m : Match} {r : Reading} (h : Gives m r) {position : Nat} {d d' : Diagnostics}
    {out : Tree × Nat} (hm : m position d = (.ok out, d')) : r position = .ok out := by
  rw [← h position d, hm]

/-- A failure of a match that gives a reading is a failure of the reading. -/
theorem Gives.error {m : Match} {r : Reading} (h : Gives m r) {position : Nat} {d d' : Diagnostics}
    {f : Failure} (hm : m position d = (.error f, d')) : r position = .error f := by
  rw [← h position d, hm]

theorem gives_alternation {left right : Match} {l r : Reading} (hl : Gives left l)
    (hr : Gives right r) : Gives (alternation left right) (.alternation l r) := by
  intro position d
  unfold alternation Reading.alternation
  match hm : left position d with
  | (.ok out, d') => simp [hl.ok hm]
  | (.error f, d') => simp [hl.error hm, hr position _]

/-- Items read in turn, after trees that are there already. -/
theorem sequence_outcome {items : List Match} {readings : List Reading}
    (h : List.Forall₂ Gives items readings) (done : List Tree) (position : Nat) (d : Diagnostics) :
    (sequence done items position d).1 = (Reading.all readings position).map fun (ts, stop) =>
      ((Tree.list (done.reverse ++ ts)).flatten, stop) := by
  induction h generalizing done position d with
  | nil => simp [sequence, Reading.all, Except.map]
  | @cons item reading items readings hi _ ih =>
      match hm : item position d with
      | (.error f, d') => simp [sequence, Reading.all, hm, hi.error hm, Except.map]
      | (.ok (t, next), d') =>
          simp only [sequence, Reading.all, hm, hi.ok hm, ih]
          cases Reading.all readings next <;> simp [Except.map]

theorem gives_sequence {items : List Match} {readings : List Reading}
    (h : List.Forall₂ Gives items readings) : Gives (sequence [] items) (.sequence readings) := by
  intro position d
  simp [sequence_outcome h, Reading.sequence]

/-- Further rounds, after trees that are there already. -/
theorem further_outcome {item : Match} {r : Reading} (h : Gives item r) (limit : Nat)
    (done : List Tree) (position : Nat) (d : Diagnostics) :
    (further item limit done position d).1 =
      .ok ((Tree.list (done.reverse ++ (Reading.rounds r limit position).1)).flatten,
        (Reading.rounds r limit position).2) := by
  induction limit generalizing done position d with
  | zero => simp [further, Reading.rounds]
  | succ limit ih =>
      match hm : item position d with
      | (.error f, d') => simp [further, Reading.rounds, hm, h.error hm]
      | (.ok (t, next), d') =>
          by_cases hs : next = position
          · simp [further, Reading.rounds, hm, h.ok hm, hs]
          · simp [further, Reading.rounds, hm, h.ok hm, hs, ih]

theorem gives_oneOrMore {item : Match} {r : Reading} (h : Gives item r) (limit : Nat) :
    Gives (oneOrMore limit item) (.oneOrMore limit r) := by
  intro position d
  unfold oneOrMore Reading.oneOrMore
  match hm : item position d with
  | (.error f, d') => simp [h.error hm]
  | (.ok (t, next), d') =>
      by_cases hs : next = position
      · simp [h.ok hm, hs, Tree.flatten]
      · simp [h.ok hm, hs, further_outcome h]

theorem gives_rule {alternatives : List Match} {readings : List Reading} (name : String)
    (h : List.Forall₂ Gives alternatives readings) :
    Gives (rule input name alternatives) (.rule input name readings) := by
  intro position d
  induction h generalizing d with
  | nil => rfl
  | @cons alternative reading alternatives readings ha _ ih =>
      match hm : alternative position d with
      | (.error f, d') => simp [rule, Reading.rule, hm, ha.error hm, ih]
      | (.ok (t, next), d') =>
          simp only [rule, Reading.rule, hm, ha.ok hm]
          cases input.builders.build name t with
          | ok built => rfl
          | error e => exact ih _

end Match

end NodeScript
