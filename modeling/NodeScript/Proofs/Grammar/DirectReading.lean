import NodeScript.Proofs.Grammar.Compilation
import NodeScript.Proofs.Grammar.Outcomes

/-!
# Compiled graphs mean what their tables mean

Matching a node that stands for a phrase gives what reading the phrase gives, and so matching a
rule's node gives what reading the rule by the table gives, with the same budget for rules in one
another.
-/

namespace NodeScript.Graph

open Match (Gives)

variable {g : Graph} {table : RuleTable} {tokens : TokenTable} {input : Input}

/-- Entering the node of a rule gives what reading the rule by its name gives. -/
def Enters (g : Graph) (enter : String → List Nat → Match) (read : String → Reading) : Prop :=
  ∀ ⦃name id⦄, g.rule? name = some id →
    ∃ ids, g.nodes[id]? = some (.composite name ids) ∧ Gives (enter name ids) (read name)

variable {enter : String → List Nat → Match} {read : String → Reading}

theorem walk_denotes (he : Enters g enter read) : ∀ {p : Phrase} {limit id : Nat},
    g.Denotes tokens p id → id < limit →
    Gives (g.walk input enter limit id) (p.read tokens input read)
  | .rule _, _ + 1, _, hd, _ => by
      obtain ⟨ids, hn, hg⟩ := he hd
      simp only [walk, hn]
      exact hg
  | .terminal name, _ + 1, id, hd, _ => by
      have hn : g.nodes[id]? = some (.terminal name (tokens.row? name)) := hd
      simp only [walk, hn]
      exact Match.gives_one name _
  | .literal text, _ + 1, id, hd, _ => by
      have hn : g.nodes[id]? = some (.literal text) := hd
      simp only [walk, hn]
      exact Match.gives_one (Text.quoted text) _
  | .alternation _ _, limit + 1, _, ⟨i, j, hn, hi, hj, hl, hr⟩, hlt => by
      simp only [walk, hn]
      exact Match.gives_alternation (walk_denotes he hl (by omega)) (walk_denotes he hr (by omega))
  | .oneOrMore _, limit + 1, _, ⟨i, hn, hi, hb⟩, hlt => by
      simp only [walk, hn]
      exact Match.gives_oneOrMore (walk_denotes he hb (by omega)) _

theorem walk_denotesParts (he : Enters g enter read) {parts : Alternative} {id : Nat}
    (h : g.DenotesParts table tokens parts id) :
    Gives (g.walk input enter g.nodes.size id)
      (table.readAlternative tokens input read parts) := by
  obtain ⟨phrases, ids, hp, hn, hd, hlt⟩ := h
  have hid : id < g.nodes.size := (Array.getElem?_eq_some_iff.1 hn).1
  obtain ⟨limit, hl⟩ := Nat.exists_eq_add_one_of_ne_zero (Nat.ne_zero_of_lt hid)
  simp only [hl, walk, hn, RuleTable.readAlternative, hp]
  have below : ∀ i ∈ ids, i < limit := fun i hi => by
    have := hlt i hi
    omega
  refine Match.gives_sequence (List.forall₂_map_left_iff.2 (List.forall₂_map_right_iff.2 ?_))
  clear hp hn hlt
  induction hd with
  | nil => exact .nil
  | cons hi _ ih =>
      obtain ⟨hlt, hlts⟩ := List.forall_mem_cons.1 below
      exact .cons (walk_denotes he hi hlt) (ih hlts)

/-- Matching a rule, given its alternatives, with rules at most `budget` deep in one another. -/
def enterRule (g : Graph) (input : Input) : (budget : Nat) → String → List Nat → Match
  | 0, name, _ => Match.fail input (name ++ " (recursion limit)")
  | budget + 1, name, ids => Match.rule input name (ids.map (g.resolveWithin input budget))

theorem resolveWithin_eq_walk (g : Graph) (input : Input) (budget id : Nat) :
    g.resolveWithin input budget id = g.walk input (g.enterRule input budget) g.nodes.size id := by
  cases budget <;> rfl

theorem enterRule_enters (h : compile table tokens = .ok g) (input : Input) (budget : Nat) :
    Enters g (g.enterRule input budget) (table.evaluate tokens input budget) := by
  induction budget with
  | zero =>
      intro name id hid
      obtain ⟨ids, hn, _⟩ := compile_defines h hid
      exact ⟨ids, hn, Match.gives_fail _⟩
  | succ budget ih =>
      intro name id hid
      obtain ⟨ids, hn, hds⟩ := compile_defines h hid
      refine ⟨ids, hn, Match.gives_rule name (List.forall₂_map_left_iff.2
        (List.forall₂_map_right_iff.2 (hds.flip.imp fun i parts hd => ?_)))⟩
      rw [resolveWithin_eq_walk]
      exact walk_denotesParts ih hd

/-- Matching the node of a rule gives what reading the rule by the table gives. -/
theorem resolveWithin_gives (h : compile table tokens = .ok g) (input : Input) (budget : Nat)
    {name : String} {id : Nat} (hid : g.rule? name = some id) :
    Gives (g.resolveWithin input budget id) (table.evaluate tokens input budget name) := by
  obtain ⟨ids, hn, hg⟩ := enterRule_enters h input budget hid
  obtain ⟨limit, hl⟩ := Nat.exists_eq_add_one_of_ne_zero (Nat.ne_zero_of_lt (rule?_lt_size h hid))
  rw [resolveWithin_eq_walk, hl]
  simp only [walk, hn]
  exact hg

/-- Compiling a table keeps what its rules mean: every rule has a node, and matching that node
anywhere, whatever has been recorded before, gives the tree and the position, or the failure, that
reading the rule by the table gives. -/
theorem resolve_compile_eq_evaluate (h : compile table tokens = .ok g) {name : String}
    (hc : table.contains name) (input : Input) :
    ∃ id, g.rule? name = some id ∧ ∀ position d,
      (g.resolve input id position d).1 =
        table.evaluate tokens input nestingLimit name position := by
  obtain ⟨id, hid⟩ := compile_rule? h hc
  exact ⟨id, hid, resolveWithin_gives h input nestingLimit hid⟩

/-- Nests of brackets around leaves and nests, a rule that refers back to itself. -/
def nests : RuleTable :=
  ⟨[("nest", [[.literal "(", .symbol "nest", .or, .symbol "leaf", .oneOrMore, .literal ")"]]),
    ("leaf", [[.literal "x"], [.symbol "INT"]])]⟩

theorem resolve_compile_eq_evaluate_nests : ∃ g, compile nests ⟨[]⟩ = .ok g ∧
    nests.contains "nest" ∧ ∀ input, ∃ id, g.rule? "nest" = some id ∧ ∀ position d,
      (g.resolve input id position d).1 =
        nests.evaluate ⟨[]⟩ input nestingLimit "nest" position := by
  have compiles : (compile nests ⟨[]⟩).isOk := by decide
  match h : compile nests ⟨[]⟩ with
  | .error e => simp [h, Except.toBool] at compiles
  | .ok g => exact ⟨g, rfl, by decide, resolve_compile_eq_evaluate h (by decide)⟩

end NodeScript.Graph
