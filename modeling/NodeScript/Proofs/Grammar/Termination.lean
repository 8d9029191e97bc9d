import NodeScript.Proofs.Grammar.Machine

/-!
# Matching ends

The machine has no bound of its own, and a node that leads back to itself through no rule would keep
it busy for ever (`never_ends`). Compiled graphs have no such nodes, so that it ends on them.
-/

namespace NodeScript.Graph

open Machine (Leads step finish)

variable {g : Graph} {input : Input}

/-- The machine has come to a node, or to the items of the node with the node itself first. -/
def Machine.Circles (id : Nat) (rest : List Nat) (position : Nat) (m : Machine) : Prop :=
  m.task = .node id position ∨ m.task = .items [] (id :: rest) position

theorem Machine.Circles.step {id position : Nat} {rest : List Nat} {m : Machine}
    (hn : g.nodes[id]? = some (.sequence (id :: rest))) (h : m.Circles id rest position) :
    (step g input m).Circles id rest position := by
  obtain ⟨task, stack, r⟩ := m
  rcases h with rfl | rfl
  · exact .inr (by simp only [Machine.step, hn])
  · exact .inl rfl

/-- A sequence that begins with itself is never done. -/
theorem never_ends {id : Nat} {rest : List Nat} (hn : g.nodes[id]? = some (.sequence (id :: rest)))
    (position count : Nat) (stack : List Frame) (r : Resolver) (out : Outcome) :
    ((step g input)^[count] ⟨.node id position, stack, r⟩).task ≠ .outcome out := by
  have circles : Machine.Circles id rest position
      ((step g input)^[count] ⟨.node id position, stack, r⟩) := by
    induction count with
    | zero => exact .inl rfl
    | succ count ih =>
        rw [Function.iterate_succ_apply']
        exact ih.step hn
  intro h
  rcases circles with hc | hc
  · cases h.symm.trans hc
  · cases h.symm.trans hc

variable {table : RuleTable} {tokens : TokenTable}

/-- Matching a node of a compiled graph ends after finitely many steps. This holds for any rules,
builders and tokens, for any position, for whoever waits and whatever has been matched before. The
outcome is the one of `resolveWithin`, and the depth is as before. -/
theorem resolving_ends (h : compile table tokens = .ok g) (input : Input) {id : Nat}
    (hid : id < g.nodes.size) (position : Nat) (stack : List Frame) (r : Resolver) :
    ∃ count, (step g input)^[count] ⟨.node id position, stack, r⟩ =
      finish (g.resolveWithin input (nestingLimit - r.depth) id) position stack r := by
  have layered : IsLayered g.nodes := compile_isLayered h
  exact Machine.performs_resolveWithin layered input _ hid position stack r rfl

/-- Rules that begin with themselves and with one another, an empty alternative, and repetitions of
what can match nothing. -/
def loops : RuleTable :=
  ⟨[("loop", [[.symbol "loop", .literal "x"], [.symbol "back", .oneOrMore, .oneOrMore], []]),
    ("back", [[.symbol "loop", .literal "y"], [.symbol "loop", .oneOrMore]])]⟩

theorem compile_size_pos (h : compile table tokens = .ok g) {name : String}
    (hc : table.contains name) : 0 < g.nodes.size := by
  obtain ⟨id, hid⟩ := compile_rule? h hc
  exact Nat.zero_lt_of_lt (rule?_lt_size h hid)

theorem isOk_compile_loops : (compile loops ⟨[]⟩).isOk := by
  decide

theorem resolving_ends_loops : ∃ g, compile loops ⟨[]⟩ = .ok g ∧ 0 < g.nodes.size ∧
    ∃ count, (step g ⟨#[], .empty⟩)^[count] ⟨.node 0 7, [], .fresh⟩ =
      finish (g.resolveWithin ⟨#[], .empty⟩ nestingLimit 0) 7 [] .fresh := by
  have compiles := isOk_compile_loops
  match h : compile loops ⟨[]⟩ with
  | .error e => simp [h, Except.toBool] at compiles
  | .ok g =>
      have hid : 0 < g.nodes.size := compile_size_pos h (by decide : loops.contains "loop")
      exact ⟨g, rfl, hid, resolving_ends h ⟨#[], .empty⟩ hid 7 [] .fresh⟩

end NodeScript.Graph
