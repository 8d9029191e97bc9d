import Mathlib.Data.List.Forall2
import NodeScript.Proofs.Grammar.Evaluator

/-!
# Reading the tokens that remain

Reading by a rule table, said of the list of the tokens that remain instead of a position among all
of them. Both readings succeed together, with the same tree and at the same place
(`agree_evaluate`).
-/

namespace NodeScript

/-- Reading something off the tokens that remain, with what then remains. -/
abbrev Descent := List Token → Option (Tree × List Token)

namespace Descent

/-- Reads one token that passes a test. -/
def one (test : Token → Bool) : Descent
  | t :: rest => if test t then some (.token t, rest) else none
  | [] => none

/-- The trees of all of a list, read one after the other. -/
def all : List Descent → List Token → Option (List Tree × List Token)
  | [], ts => some ([], ts)
  | item :: items, ts =>
    match item ts with
    | some (t, rest) => (all items rest).map fun (trees, last) => (t :: trees, last)
    | none => none

/-- Reads all of a list, one after the other. -/
def sequence (items : List Descent) : Descent := fun ts =>
  (all items ts).map fun (trees, rest) => ((Tree.list trees).flatten, rest)

/-- Reads the left, and the right when the left fails. -/
def alternation (left right : Descent) : Descent := fun ts =>
  match left ts with
  | some success => some success
  | none => right ts

/-- The trees of as many rounds as succeed, up to a limit. A round that takes no token is the
last. -/
def rounds (item : Descent) : (limit : Nat) → List Token → List Tree × List Token
  | 0, ts => ([], ts)
  | limit + 1, ts =>
    match item ts with
    | none => ([], ts)
    | some (t, rest) =>
      if rest.length = ts.length then ([t], rest)
      else
        let (trees, last) := rounds item limit rest
        (t :: trees, last)

/-- Reads once or more. -/
def oneOrMore (limit : Nat) (item : Descent) : Descent := fun ts =>
  match item ts with
  | none => none
  | some (t, rest) =>
    let (trees, last) := if rest.length = ts.length then ([], rest) else rounds item limit rest
    some ((Tree.list (t :: trees)).flatten, last)

/-- Reads the first alternative that succeeds and whose tree the rule's builder accepts. -/
def rule (builders : BuilderTable) (name : String) : List Descent → Descent
  | [], _ => none
  | alternative :: more, ts =>
    match alternative ts with
    | none => rule builders name more ts
    | some (t, rest) =>
      match builders.build name t with
      | .ok built => some (built, rest)
      | .error _ => rule builders name more ts

end Descent

/-- Reads a phrase off the tokens that remain. -/
def Phrase.descend (tokens : TokenTable) (limit : Nat) (enter : String → Descent) :
    Phrase → Descent
  | .rule name => enter name
  | .terminal name => .one fun t => (tokens.row? name).any (·.accepts t.text)
  | .literal text => .one (·.text == text)
  | .alternation left right =>
    .alternation (left.descend tokens limit enter) (right.descend tokens limit enter)
  | .oneOrMore body => .oneOrMore limit (body.descend tokens limit enter)

namespace RuleTable

/-- Reads an alternative off the tokens that remain. -/
def descendAlternative (table : RuleTable) (tokens : TokenTable) (limit : Nat)
    (enter : String → Descent) (parts : Alternative) : Descent :=
  match table.phrases? parts with
  | some phrases => .sequence (phrases.map (·.descend tokens limit enter))
  | none => fun _ => none

/-- Reads a rule off the tokens that remain, of which there are at most `limit`, with rules at most
`budget` deep in one another. -/
def descend (table : RuleTable) (tokens : TokenTable) (builders : BuilderTable) (limit : Nat) :
    (budget : Nat) → (name : String) → Descent
  | 0, _ => fun _ => none
  | budget + 1, name =>
    .rule builders name (((table.get? name).getD []).map
      (table.descendAlternative tokens limit (descend table tokens builders limit budget)))

end RuleTable

/-! ## When readings succeed -/

namespace Descent

theorem one_eq_some {test : Token → Bool} {ts rest : List Token} {t : Tree} :
    one test ts = some (t, rest) ↔ ∃ a, ts = a :: rest ∧ test a ∧ t = .token a := by
  match ts with
  | [] => simp [one]
  | a :: ts =>
      by_cases h : test a
      · simp only [one, h, if_true, Option.some.injEq, Prod.mk.injEq, List.cons.injEq]
        constructor
        · rintro ⟨rfl, rfl⟩
          exact ⟨a, ⟨rfl, rfl⟩, h, rfl⟩
        · rintro ⟨a', ⟨rfl, rfl⟩, _, rfl⟩
          exact ⟨rfl, rfl⟩
      · simp only [one, h, Bool.false_eq_true, if_false, reduceCtorEq, List.cons.injEq, false_iff]
        rintro ⟨a', ⟨rfl, _⟩, ha, _⟩
        exact h ha

theorem all_nil_eq_some {ts rest : List Token} {trees : List Tree} :
    all [] ts = some (trees, rest) ↔ trees = [] ∧ ts = rest := by
  simp [all, eq_comm]

theorem all_cons_eq_some {f : Descent} {fs : List Descent} {ts rest : List Token}
    {trees : List Tree} : all (f :: fs) ts = some (trees, rest) ↔
      ∃ t mid trees', f ts = some (t, mid) ∧ all fs mid = some (trees', rest) ∧
        trees = t :: trees' := by
  simp only [all]
  match f ts with
  | none => simp
  | some (t, mid) =>
      match hm : all fs mid with
      | none => simp [hm]
      | some (trees', last) => simp [hm, and_comm, eq_comm]

theorem sequence_eq_some {fs : List Descent} {ts rest : List Token} {t : Tree} :
    sequence fs ts = some (t, rest) ↔
      ∃ trees, all fs ts = some (trees, rest) ∧ t = (Tree.list trees).flatten := by
  unfold sequence
  match all fs ts with
  | none => simp
  | some (trees, last) => simp [and_comm, eq_comm]

/-- A rule without a builder reads its first alternative that succeeds. -/
theorem rule_eq_findSome? {builders : BuilderTable} {name : String}
    (h : builders.get? name = none) (fs : List Descent) (ts : List Token) :
    rule builders name fs ts = fs.findSome? (· ts) := by
  induction fs with
  | nil => rfl
  | cons f fs ih =>
      simp only [rule, BuilderTable.build, h, List.findSome?_cons]
      match f ts with
      | none => exact ih
      | some (t, rest) => rfl

variable {α : Type}

/-- The descent reads the pieces of a kind that are as they should be, given what follows them, and
makes trees of them, as long as at most `limit` tokens remain. -/
structure Reads (f : Descent) (limit : Nat) (tokens : α → List Token)
    (fits : α → List Token → Prop) (tree : α → Tree → Prop) : Prop where
  sound : ∀ {ts t rest}, ts.length ≤ limit → f ts = some (t, rest) →
    ∃ a, ts = tokens a ++ rest ∧ fits a rest ∧ tree a t
  complete : ∀ a rest, (tokens a ++ rest).length ≤ limit → fits a rest →
    ∃ t, f (tokens a ++ rest) = some (t, rest) ∧ tree a t

/-- Pieces that fit one after the other. -/
def InTurn (tokens : α → List Token) (fits : α → List Token → Prop) :
    List α → List Token → Prop
  | [], _ => True
  | a :: as, rest => fits a (as.flatMap tokens ++ rest) ∧ InTurn tokens fits as rest

theorem inTurn_iff_forall {tokens : α → List Token} {fits : α → Prop} {as : List α}
    {rest : List Token} : InTurn tokens (fun a _ => fits a) as rest ↔ ∀ a ∈ as, fits a := by
  induction as with
  | nil => simp [InTurn]
  | cons a as ih => simp [InTurn, ih]

variable {f : Descent} {limit : Nat} {tokens : α → List Token} {fits : α → List Token → Prop}
  {tree : α → Tree → Prop}

/-- Where no piece begins, nothing is read. -/
theorem Reads.eq_none (h : Reads f limit tokens fits tree) {ts : List Token}
    (hl : ts.length ≤ limit) (hn : ∀ a rest, ts = tokens a ++ rest → ¬fits a rest) :
    f ts = none := by
  match hf : f ts with
  | none => rfl
  | some (t, rest) =>
      obtain ⟨a, ha, hw, _⟩ := h.sound hl hf
      exact absurd hw (hn a rest ha)

theorem reads_one (test : Token → Bool) (limit : Nat) :
    Reads (one test) limit (fun a => [a]) (fun a _ => test a) (fun a t => t = .token a) where
  sound := fun _ h => by
    obtain ⟨a, rfl, ha, rfl⟩ := one_eq_some.1 h
    exact ⟨a, rfl, ha, rfl⟩
  complete := fun a rest _ ha => ⟨.token a, one_eq_some.2 ⟨a, rfl, ha, rfl⟩, rfl⟩

section Repetition

variable (h : Reads f limit tokens fits tree) (hne : ∀ {a rest}, fits a rest → tokens a ≠ [])
include h hne

theorem rounds_sound {n : Nat} {ts rest : List Token} {trees : List Tree} (hn : ts.length ≤ n)
    (hl : ts.length ≤ limit) (hr : rounds f n ts = (trees, rest)) :
    ∃ as, ts = as.flatMap tokens ++ rest ∧ InTurn tokens fits as rest ∧ f rest = none ∧
      List.Forall₂ tree as trees := by
  induction n generalizing ts trees with
  | zero =>
      obtain rfl : ts = [] := by simpa using hn
      obtain ⟨rfl, rfl⟩ : [] = trees ∧ [] = rest := by simpa [rounds] using hr
      refine ⟨[], rfl, trivial, h.eq_none hl fun a rest ha hw => hne hw ?_, .nil⟩
      exact (List.append_eq_nil_iff.1 ha.symm).1
  | succ n ih =>
      match hf : f ts with
      | none =>
          obtain ⟨rfl, rfl⟩ : [] = trees ∧ ts = rest := by simpa [rounds, hf] using hr
          exact ⟨[], rfl, trivial, hf, .nil⟩
      | some (t, mid) =>
          obtain ⟨a, rfl, hw, ht⟩ := h.sound hl hf
          -- a piece is not empty, so the bound on rounds outlasts the tokens
          have hpos := List.length_pos_iff.2 (hne hw)
          simp only [List.length_append] at hn hl
          match hm : rounds f n mid with
          | (trees', last) =>
              have hs : ¬mid.length = (tokens a ++ mid).length := by
                simp only [List.length_append]
                omega
              simp only [rounds, hf, if_neg hs, hm, Prod.mk.injEq] at hr
              obtain ⟨rfl, rfl⟩ := hr
              obtain ⟨as, rfl, hi, hn, hts⟩ := ih (by omega) (by omega) hm
              exact ⟨a :: as, by simp, ⟨hw, hi⟩, hn, .cons ht hts⟩

theorem rounds_complete {n : Nat} {as : List α} {rest : List Token}
    (hn : (as.flatMap tokens ++ rest).length ≤ n)
    (hl : (as.flatMap tokens ++ rest).length ≤ limit) (hi : InTurn tokens fits as rest)
    (hr : f rest = none) :
    ∃ trees, rounds f n (as.flatMap tokens ++ rest) = (trees, rest) ∧
      List.Forall₂ tree as trees := by
  induction as generalizing n with
  | nil => cases n <;> exact ⟨[], by simp [rounds, hr], .nil⟩
  | cons a as ih =>
      obtain ⟨hw, hi⟩ := hi
      have hpos := List.length_pos_iff.2 (hne hw)
      simp only [List.flatMap_cons, List.append_assoc] at hn hl ⊢
      obtain ⟨t, ht, htree⟩ := h.complete _ _ hl hw
      simp only [List.length_append] at hn hl
      obtain ⟨n, rfl⟩ : ∃ m, n = m + 1 := ⟨n - 1, by omega⟩
      obtain ⟨trees, hts, htrees⟩ := ih (n := n)
        (by simp only [List.length_append]; omega) (by simp only [List.length_append]; omega) hi
      refine ⟨t :: trees, ?_, .cons htree htrees⟩
      have hs : ¬(as.flatMap tokens ++ rest).length =
          (tokens a ++ (as.flatMap tokens ++ rest)).length := by
        simp only [List.length_append]
        omega
      simp only [rounds, ht, if_neg hs, hts]

/-- Reading once or more reads all pieces there are. -/
theorem Reads.oneOrMore : Reads (Descent.oneOrMore limit f) limit (fun as => as.flatMap tokens)
    (fun as rest => as ≠ [] ∧ InTurn tokens fits as rest ∧ f rest = none)
    (fun as t => ∃ trees, List.Forall₂ tree as trees ∧ t = (Tree.list trees).flatten) where
  sound := fun {ts t rest} hl hf => by
    unfold Descent.oneOrMore at hf
    match hm : f ts with
    | none => simp [hm] at hf
    | some (t', mid) =>
        obtain ⟨a, rfl, hw, ht⟩ := h.sound hl hm
        have hpos := List.length_pos_iff.2 (hne hw)
        simp only [List.length_append] at hl
        have hs : ¬mid.length = (tokens a ++ mid).length := by
          simp only [List.length_append]
          omega
        match hr : rounds f limit mid with
        | (trees, last) =>
            simp only [hm, if_neg hs, hr, Option.some.injEq, Prod.mk.injEq] at hf
            obtain ⟨rfl, rfl⟩ := hf
            obtain ⟨as, rfl, hi, hn, hts⟩ := rounds_sound h hne (by omega) (by omega) hr
            exact ⟨a :: as, by simp, ⟨by simp, ⟨hw, hi⟩, hn⟩, t' :: trees, .cons ht hts, rfl⟩
  complete := fun as rest hl ⟨hne', hi, hr⟩ => by
    obtain ⟨a, as, rfl⟩ := List.exists_cons_of_ne_nil hne'
    obtain ⟨hw, hi⟩ := hi
    have hpos := List.length_pos_iff.2 (hne hw)
    simp only [List.flatMap_cons, List.append_assoc] at hl ⊢
    obtain ⟨t, ht, htree⟩ := h.complete _ _ hl hw
    simp only [List.length_append] at hl
    obtain ⟨trees, hts, htrees⟩ := rounds_complete h hne (n := limit)
      (by simp only [List.length_append]; omega) (by simp only [List.length_append]; omega) hi hr
    have hs : ¬(as.flatMap tokens ++ rest).length =
        (tokens a ++ (as.flatMap tokens ++ rest)).length := by
      simp only [List.length_append]
      omega
    refine ⟨_, ?_, t :: trees, .cons htree htrees, rfl⟩
    simp only [Descent.oneOrMore, ht, if_neg hs, hts]

end Repetition

end Descent

/-! ## Agreement -/

/-- The tokens that remain from a position on. -/
def Input.Remain (input : Input) (position : Nat) (ts : List Token) : Prop :=
  ∃ before, input.tokens.toList = before ++ ts ∧ before.length = position

/-- Reading from a position and off the tokens that remain there have succeeded alike, or both have
failed. -/
inductive Reading.SameResult (input : Input) {α : Type} :
    Except Failure (α × Nat) → Option (α × List Token) → Prop
  | success {a next rest} (h : input.Remain next rest) :
    SameResult input (.ok (a, next)) (some (a, rest))
  | failure {f} : SameResult input (.error f) none

/-- Reading from a position on and reading off the tokens that remain there do the same. -/
def Reading.Agree (input : Input) (r : Reading) (f : Descent) : Prop :=
  ∀ ⦃position ts⦄, input.Remain position ts → SameResult input (r position) (f ts)

namespace Reading

variable {input : Input}

theorem remain_next {position : Nat} {t : Token} {rest : List Token}
    (h : input.Remain position (t :: rest)) :
    input.tokens[position]? = some t ∧ input.Remain (position + 1) rest := by
  obtain ⟨before, hb, rfl⟩ := h
  refine ⟨?_, before ++ [t], by simp [hb], by simp⟩
  rw [← Array.getElem?_toList, hb]
  simp

theorem remain_nil {position : Nat} (h : input.Remain position []) :
    input.tokens[position]? = none := by
  obtain ⟨before, hb, rfl⟩ := h
  rw [← Array.getElem?_toList, hb]
  simp

/-- As many tokens remain at two positions only when the positions are the same. -/
theorem remain_length_iff {position next : Nat} {ts rest : List Token}
    (h : input.Remain position ts) (h' : input.Remain next rest) :
    next = position ↔ rest.length = ts.length := by
  obtain ⟨before, hb, rfl⟩ := h
  obtain ⟨before', hb', rfl⟩ := h'
  have := congrArg List.length (hb.symm.trans hb')
  simp only [List.length_append] at this
  omega

theorem agree_fail (expected : String) : Agree input (fail input expected) fun _ => none :=
  fun _ _ _ => .failure

theorem agree_one (expected : String) (test : Token → Bool) :
    Agree input (one input expected test) (.one test) := by
  intro position ts h
  unfold one
  match ts, h with
  | [], h =>
      rw [remain_nil h]
      exact .failure
  | t :: rest, h =>
      obtain ⟨ht, hr⟩ := remain_next h
      by_cases hp : test t
      · simpa [ht, hp, Descent.one] using .success hr
      · simpa [ht, hp, Descent.one, fail] using .failure

theorem sameResult_all {readings : List Reading} {descents : List Descent}
    (h : List.Forall₂ (Agree input) readings descents) {position : Nat} {ts : List Token}
    (hr : input.Remain position ts) :
    SameResult input (all readings position) (Descent.all descents ts) := by
  induction h generalizing position ts with
  | nil => exact .success hr
  | @cons r f readings descents hi _ ih =>
      simp only [all, Descent.all]
      match r position, f ts, hi hr with
      | _, _, .failure => exact .failure
      | .ok (t, next), some (_, rest), .success hn =>
          simp only
          match all readings next, Descent.all descents rest, ih hn with
          | _, _, .failure => exact .failure
          | _, _, .success hl => exact .success hl

theorem agree_sequence {readings : List Reading} {descents : List Descent}
    (h : List.Forall₂ (Agree input) readings descents) :
    Agree input (sequence readings) (.sequence descents) := by
  intro position ts hr
  unfold sequence Descent.sequence
  match all readings position, Descent.all descents ts, sameResult_all h hr with
  | _, _, .failure => exact .failure
  | _, _, .success hl => exact .success hl

theorem agree_alternation {l r : Reading} {f g : Descent} (hl : Agree input l f)
    (hr : Agree input r g) : Agree input (alternation l r) (.alternation f g) := by
  intro position ts h
  unfold alternation Descent.alternation
  match l position, f ts, hl h with
  | _, _, .failure => exact hr h
  | _, _, .success hn => exact .success hn

theorem remain_rounds {r : Reading} {f : Descent} (h : Agree input r f) (limit : Nat)
    {position : Nat} {ts : List Token} (hr : input.Remain position ts) :
    (rounds r limit position).1 = (Descent.rounds f limit ts).1 ∧
      input.Remain (rounds r limit position).2 (Descent.rounds f limit ts).2 := by
  induction limit generalizing position ts with
  | zero => exact ⟨rfl, hr⟩
  | succ limit ih =>
      simp only [rounds, Descent.rounds]
      match r position, f ts, h hr with
      | _, _, .failure => exact ⟨rfl, hr⟩
      | .ok (t, next), some (_, rest), .success hn =>
          simp only [remain_length_iff hr hn]
          by_cases hs : rest.length = ts.length
          · simpa [hs] using hn
          · simpa [hs] using ih hn

theorem agree_oneOrMore {r : Reading} {f : Descent} (h : Agree input r f) (limit : Nat) :
    Agree input (oneOrMore limit r) (.oneOrMore limit f) := by
  intro position ts hr
  unfold oneOrMore Descent.oneOrMore
  match r position, f ts, h hr with
  | _, _, .failure => exact .failure
  | .ok (t, next), some (_, rest), .success hn =>
      simp only [remain_length_iff hr hn]
      by_cases hs : rest.length = ts.length
      · simpa [hs] using .success hn
      · obtain ⟨ht, hl⟩ := remain_rounds h limit hn
        simpa [hs, ht] using .success hl

theorem agree_rule (name : String) {readings : List Reading} {descents : List Descent}
    (h : List.Forall₂ (Agree input) readings descents) :
    Agree input (rule input name readings) (.rule input.builders name descents) := by
  intro position ts hr
  induction h with
  | nil => exact .failure
  | @cons r f readings descents hi _ ih =>
      simp only [rule, Descent.rule]
      match r position, f ts, hi hr with
      | _, _, .failure => exact ih
      | .ok (t, next), some (_, rest), .success hn =>
          simp only
          match input.builders.build name t with
          | .ok built => exact .success hn
          | .error _ => exact ih

theorem agree_phrase {tokens : TokenTable} {enter : String → Reading} {enter' : String → Descent}
    (h : ∀ name, Agree input (enter name) (enter' name)) (p : Phrase) :
    Agree input (p.read tokens input enter) (p.descend tokens input.tokens.size enter') := by
  induction p with
  | rule name => exact h name
  | terminal name => exact agree_one name _
  | literal text => exact agree_one _ _
  | alternation left right ihl ihr => exact agree_alternation ihl ihr
  | oneOrMore body ih => exact agree_oneOrMore ih _

theorem agree_alternative (table : RuleTable) {tokens : TokenTable} {enter : String → Reading}
    {enter' : String → Descent} (h : ∀ name, Agree input (enter name) (enter' name))
    (parts : Alternative) :
    Agree input (table.readAlternative tokens input enter parts)
      (table.descendAlternative tokens input.tokens.size enter' parts) := by
  unfold RuleTable.readAlternative RuleTable.descendAlternative
  cases table.phrases? parts with
  | none => exact agree_fail _
  | some phrases =>
      refine agree_sequence (List.forall₂_map_left_iff.2 (List.forall₂_map_right_iff.2 ?_))
      exact List.forall₂_same.2 fun p _ => agree_phrase h p

/-- Reading a rule from a position on and reading it off the tokens that remain there do the
same. -/
theorem agree_evaluate (table : RuleTable) (tokens : TokenTable) (input : Input) (budget : Nat)
    (name : String) : Agree input (table.evaluate tokens input budget name)
      (table.descend tokens input.builders input.tokens.size budget name) := by
  induction budget generalizing name with
  | zero => exact agree_fail _
  | succ budget ih =>
      refine agree_rule name (List.forall₂_map_left_iff.2 (List.forall₂_map_right_iff.2 ?_))
      exact List.forall₂_same.2 fun parts _ => agree_alternative table ih parts

end Reading

end NodeScript
