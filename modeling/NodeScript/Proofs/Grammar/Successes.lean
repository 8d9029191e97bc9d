import Mathlib.Data.List.Forall2
import NodeScript.Grammar.Resolver

/-!
# What successes are made of

The ways in which a node can make a tree of tokens, as a relation that knows no order of choices, no
limit on nesting and no record of failures. Every success of matching is one of these ways
(`resolveWithin_yields`), whatever was tried and given up before it.
-/

namespace NodeScript

namespace Graph

mutual

/-- The node can make the tree of the tokens from a position up to another. -/
inductive Yields (g : Graph) (input : Input) : Nat → Nat → Tree → Nat → Prop
  | rule {id position next alternative : Nat} {name : String} {alternatives : List Nat}
      {t built : Tree} :
    g.nodes[id]? = some (.composite name alternatives) → alternative ∈ alternatives →
    Yields g input alternative position t next → input.builders.build name t = .ok built →
    Yields g input id position built next
  | sequence {id position next : Nat} {items : List Nat} {ts : List Tree} :
    g.nodes[id]? = some (.sequence items) → YieldsAll g input items position ts next →
    Yields g input id position (Tree.list ts).flatten next
  | left {id position next i j : Nat} {t : Tree} :
    g.nodes[id]? = some (.alternation i j) → Yields g input i position t next →
    Yields g input id position t next
  | right {id position next i j : Nat} {t : Tree} :
    g.nodes[id]? = some (.alternation i j) → Yields g input j position t next →
    Yields g input id position t next
  | repetition {id position next item : Nat} {ts : List Tree} (further : Nat) :
    g.nodes[id]? = some (.repetition item) →
    YieldsAll g input (List.replicate (further + 1) item) position ts next →
    Yields g input id position (Tree.list ts).flatten next
  | literal {id position : Nat} {text : String} {t : Token} :
    g.nodes[id]? = some (.literal text) → input.tokens[position]? = some t → t.text = text →
    Yields g input id position (.token t) (position + 1)
  | terminal {id position : Nat} {name : String} {row : TokenRow} {t : Token} :
    g.nodes[id]? = some (.terminal name (some row)) → input.tokens[position]? = some t →
    row.accepts t.text → Yields g input id position (.token t) (position + 1)

/-- The nodes can make the trees one after the other. -/
inductive YieldsAll (g : Graph) (input : Input) : List Nat → Nat → List Tree → Nat → Prop
  | nil {position : Nat} : YieldsAll g input [] position [] position
  | cons {id position mid next : Nat} {ids : List Nat} {t : Tree} {ts : List Tree} :
    Yields g input id position t mid → YieldsAll g input ids mid ts next →
    YieldsAll g input (id :: ids) position (t :: ts) next

end

variable {g : Graph} {input : Input}

mutual

/-- Making a tree never goes back, and beyond the tokens not on. -/
theorem Yields.advances {id position next : Nat} {t : Tree} (h : Yields g input id position t next) :
    position ≤ next ∧ next ≤ max position input.tokens.size := by
  match h with
  | .rule _ _ h _ => exact h.advances
  | .sequence _ h => exact h.advances
  | .left _ h => exact h.advances
  | .right _ h => exact h.advances
  | .repetition _ _ h => exact h.advances
  | .literal _ ht _ =>
      have := (Array.getElem?_eq_some_iff.1 ht).1
      omega
  | .terminal _ ht _ =>
      have := (Array.getElem?_eq_some_iff.1 ht).1
      omega

theorem YieldsAll.advances {ids : List Nat} {position next : Nat} {ts : List Tree}
    (h : YieldsAll g input ids position ts next) :
    position ≤ next ∧ next ≤ max position input.tokens.size := by
  match h with
  | .nil => omega
  | .cons h hs =>
      have := h.advances
      have := hs.advances
      omega

end

/-- A tree is made of tokens that are there, and never of those before its own first one. -/
theorem Yields.bounds {id position next : Nat} {t : Tree} (h : Yields g input id position t next)
    (hp : position ≤ input.tokens.size) : position ≤ next ∧ next ≤ input.tokens.size := by
  have := h.advances
  omega

theorem YieldsAll.bounds {ids : List Nat} {position next : Nat} {ts : List Tree}
    (h : YieldsAll g input ids position ts next) (hp : position ≤ input.tokens.size) :
    position ≤ next ∧ next ≤ input.tokens.size := by
  have := h.advances
  omega

end Graph

/-! ## The tokens that were taken -/

namespace Input

/-- The tokens from a position up to another. -/
def between (input : Input) (position next : Nat) : List Token :=
  (input.tokens.extract position next).toList

variable {input : Input}

theorem between_self (position : Nat) : input.between position position = [] := by
  simp [between]

theorem between_append {position mid next : Nat} (h : position ≤ mid) (h' : mid ≤ next) :
    input.between position mid ++ input.between mid next = input.between position next := by
  simp only [between, ← Array.toList_append, Array.extract_append_extract, Nat.min_eq_left h,
    Nat.max_eq_right h']

theorem between_one {position : Nat} {t : Token} (h : input.tokens[position]? = some t) :
    input.between position (position + 1) = [t] := by
  obtain ⟨hlt, rfl⟩ := Array.getElem?_eq_some_iff.1 h
  simp [between, List.drop_eq_getElem_cons, hlt]

end Input

/-! ## Successes -/

namespace Match

open NodeScript.Graph (Yields YieldsAll)

variable {g : Graph} {input : Input}

/-- The successes of a match are as `P` says. -/
def Ensures (m : Match) (P : Nat → Tree → Nat → Prop) : Prop :=
  ∀ ⦃position d t next⦄, (m position d).1 = .ok (t, next) → P position t next

theorem ensures_fail (expected : String) (P : Nat → Tree → Nat → Prop) :
    Ensures (fail input expected) P := by
  intro position d t next h
  cases h

theorem ensures_one {expected : String} {test : Token → Bool} {P : Nat → Tree → Nat → Prop}
    (h : ∀ position t, input.tokens[position]? = some t → test t →
      P position (.token t) (position + 1)) : Ensures (one input expected test) P := by
  intro position d t next hm
  unfold one at hm
  match ht : input.tokens[position]? with
  | none => simp [ht] at hm
  | some a =>
      by_cases ha : test a
      · obtain ⟨rfl, rfl⟩ : Tree.token a = t ∧ position + 1 = next := by simpa [ht, ha] using hm
        exact h position a ht ha
      · simp [ht, ha] at hm

theorem ensures_alternation {l r : Match} {P : Nat → Tree → Nat → Prop} (hl : Ensures l P)
    (hr : Ensures r P) : Ensures (alternation l r) P := by
  intro position d t next hm
  unfold alternation at hm
  match hd : l position d with
  | (.ok out, d') =>
      obtain rfl : out = (t, next) := by simpa [hd] using hm
      exact hl (d := d) (by rw [hd])
  | (.error f, d') =>
      simp only [hd] at hm
      exact hr hm

/-- Items in turn add their trees to those that are there already. -/
theorem yieldsAll_sequence {items : List Match} {ids : List Nat}
    (h : List.Forall₂ (fun m id => Ensures m (Yields g input id)) items ids) {done : List Tree}
    {position next : Nat} {d : Diagnostics} {t : Tree}
    (hm : (sequence done items position d).1 = .ok (t, next)) :
    ∃ ts, YieldsAll g input ids position ts next ∧
      t = (Tree.list (done.reverse ++ ts)).flatten := by
  induction h generalizing done position d with
  | nil =>
      obtain ⟨rfl, rfl⟩ : (Tree.list done.reverse).flatten = t ∧ position = next := by
        simpa [sequence] using hm
      exact ⟨[], .nil, by simp⟩
  | @cons m id items ids hi _ ih =>
      match hd : m position d with
      | (.error f, d') => simp [sequence, hd] at hm
      | (.ok (t', mid), d') =>
          simp only [sequence, hd] at hm
          obtain ⟨ts, hts, rfl⟩ := ih hm
          exact ⟨t' :: ts, .cons (hi (d := d) (by rw [hd])) hts, by simp⟩

/-- Further rounds add their trees to those that are there already. -/
theorem yieldsAll_further {item : Match} {id : Nat} (h : Ensures item (Yields g input id))
    {rounds position next : Nat} {done : List Tree} {d : Diagnostics} {t : Tree}
    (hm : (further item rounds done position d).1 = .ok (t, next)) :
    ∃ count ts, YieldsAll g input (List.replicate count id) position ts next ∧
      t = (Tree.list (done.reverse ++ ts)).flatten := by
  induction rounds generalizing done position d with
  | zero =>
      obtain ⟨rfl, rfl⟩ : (Tree.list done.reverse).flatten = t ∧ position = next := by
        simpa [further] using hm
      exact ⟨0, [], .nil, by simp⟩
  | succ rounds ih =>
      match hd : item position d with
      | (.error f, d') =>
          obtain ⟨rfl, rfl⟩ : (Tree.list done.reverse).flatten = t ∧ position = next := by
            simpa [further, hd] using hm
          exact ⟨0, [], .nil, by simp⟩
      | (.ok (t', mid), d') =>
          have ht := h (d := d) (by rw [hd])
          simp only [further, hd] at hm
          by_cases hs : mid = position
          · -- a round that has moved nowhere ends the loop, and its tree stays
            obtain ⟨rfl, rfl⟩ : (Tree.list (t' :: done).reverse).flatten = t ∧ mid = next := by
              simpa [hs] using hm
            exact ⟨1, [t'], .cons ht .nil, by simp⟩
          · simp only [hs, if_false] at hm
            obtain ⟨count, ts, hts, rfl⟩ := ih hm
            exact ⟨count + 1, t' :: ts, .cons ht hts, by simp⟩

theorem yieldsAll_oneOrMore {item : Match} {id : Nat} (h : Ensures item (Yields g input id))
    {rounds : Nat} : Ensures (oneOrMore rounds item) fun position t next => ∃ further ts,
      YieldsAll g input (List.replicate (further + 1) id) position ts next ∧
        t = (Tree.list ts).flatten := by
  intro position d t next hm
  unfold oneOrMore at hm
  match hd : item position d with
  | (.error f, d') => simp [hd] at hm
  | (.ok (t', mid), d') =>
      have ht := h (d := d) (by rw [hd])
      simp only [hd] at hm
      by_cases hs : mid = position
      · obtain ⟨rfl, rfl⟩ : t'.flatten = t ∧ mid = next := by simpa [hs] using hm
        exact ⟨0, [t'], .cons ht .nil, by simp [Tree.flatten]⟩
      · simp only [hs, if_false] at hm
        obtain ⟨count, ts, hts, rfl⟩ := yieldsAll_further h hm
        exact ⟨count, t' :: ts, .cons ht hts, by simp⟩

/-- A rule succeeds with what its builder makes of the tree of an alternative. -/
theorem ensures_rule (name : String) {alternatives : List Match} {P : Nat → Tree → Nat → Prop}
    (h : ∀ m ∈ alternatives, Ensures m fun position t next =>
      ∀ built, input.builders.build name t = .ok built → P position built next) :
    Ensures (rule input name alternatives) P := by
  intro position d t next hm
  induction alternatives generalizing d with
  | nil => cases hm
  | cons m more ih =>
      obtain ⟨ha, hmore⟩ := List.forall_mem_cons.1 h
      match hd : m position d with
      | (.error f, d') =>
          simp only [rule, hd] at hm
          exact ih hmore hm
      | (.ok (t', next'), d') =>
          simp only [rule, hd] at hm
          match hb : input.builders.build name t' with
          | .ok built =>
              obtain ⟨rfl, rfl⟩ : built = t ∧ next' = next := by simpa [hb] using hm
              exact ha (d := d) (by rw [hd]) built hb
          | .error e =>
              simp only [hb] at hm
              exact ih hmore hm

end Match

namespace Graph

open Match (Ensures)

variable {g : Graph} {input : Input}

theorem walk_yields {enter : String → List Nat → Match}
    (he : ∀ {id name alternatives}, g.nodes[id]? = some (.composite name alternatives) →
      Ensures (enter name alternatives) (Yields g input id)) (limit id : Nat) :
    Ensures (g.walk input enter limit id) (Yields g input id) := by
  -- between two rules, where the limit on nodes goes down; rules are entered in the next theorem
  induction limit generalizing id with
  | zero => exact Match.ensures_fail _ _
  | succ limit ih =>
      unfold walk
      match hn : g.nodes[id]? with
      | none => exact Match.ensures_fail _ _
      | some (.composite name alternatives) => exact he hn
      | some (.sequence items) =>
          intro position d t next hm
          have hi : List.Forall₂ (fun m id => Ensures m (Yields g input id))
              (items.map (g.walk input enter limit)) items :=
            List.forall₂_map_left_iff.2 (List.forall₂_same.2 fun id _ => ih id)
          obtain ⟨ts, hts, rfl⟩ := Match.yieldsAll_sequence hi hm
          exact .sequence hn hts
      | some (.alternation i j) =>
          exact Match.ensures_alternation (fun _ _ _ _ h => .left hn (ih i h))
            fun _ _ _ _ h => .right hn (ih j h)
      | some (.repetition item) =>
          intro position d t next hm
          obtain ⟨further, ts, hts, rfl⟩ := Match.yieldsAll_oneOrMore (ih item) hm
          exact .repetition further hn hts
      | some (.literal text) =>
          exact Match.ensures_one fun position t ht htext => .literal hn ht (beq_iff_eq.1 htext)
      | some (.terminal name none) => exact Match.ensures_one fun _ _ _ hrow => nomatch hrow
      | some (.terminal name (some row)) =>
          exact Match.ensures_one fun position t ht hrow => .terminal hn ht hrow

/-- Every success of matching a node is a way of making its tree, whatever the limit on nesting, and
whatever has been recorded before. -/
theorem resolveWithin_yields (g : Graph) (input : Input) (limit id : Nat) :
    Ensures (g.resolveWithin input limit id) (Yields g input id) := by
  induction limit generalizing id with
  | zero => exact walk_yields (fun _ => Match.ensures_fail _ _) _ _
  | succ limit ih =>
      refine walk_yields (fun {id name alternatives} hn => ?_) _ _
      refine Match.ensures_rule name fun m hm => ?_
      obtain ⟨alternative, ha, rfl⟩ := List.mem_map.1 hm
      intro position d t next h built hb
      exact .rule hn ha (ih alternative h) hb

end Graph

end NodeScript
