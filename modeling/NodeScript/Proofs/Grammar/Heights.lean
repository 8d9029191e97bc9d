import NodeScript.Proofs.Grammar.Machine

/-!
# Heights of nodes

A height bounds how many rules can stand in one another at a node and below it. Where the nodes of a
graph have heights, a limit on nesting that is no less than a node's height is the same as none: all
such limits match the node alike, and the machine never comes to a rule with the limit used up.
-/

namespace NodeScript.Graph

/-- Below no node are more rules in one another than at the node, and below a rule are fewer. -/
structure HasHeights (g : Graph) (height : Nat → Nat) : Prop where
  child_le : ∀ {id : Nat} {node : GraphNode}, g.nodes[id]? = some node →
    ∀ i ∈ node.children, height i ≤ height id
  rule_lt : ∀ {id : Nat} {name : String} {ids : List Nat},
    g.nodes[id]? = some (.composite name ids) → ∀ i ∈ ids, height i < height id
  rule_pos : ∀ {id : Nat} {name : String} {ids : List Nat},
    g.nodes[id]? = some (.composite name ids) → 0 < height id

variable {g : Graph} {input : Input} {height : Nat → Nat} {bound : Nat}

section Budgets

variable (hg : g.HasHeights height)
include hg

/-- Only rules up to the node's height are entered. -/
theorem HasHeights.walk_congr {enter enter' : String → List Nat → Match}
    (he : ∀ {id : Nat} {name : String} {ids : List Nat},
      g.nodes[id]? = some (.composite name ids) → height id ≤ bound →
        enter name ids = enter' name ids)
    {limit id : Nat} (hid : height id ≤ bound) :
    g.walk input enter limit id = g.walk input enter' limit id := by
  induction limit generalizing id with
  | zero => rfl
  | succ limit ih =>
      have child {node : GraphNode} (hn : g.nodes[id]? = some node) {i : Nat}
          (hi : i ∈ node.children) : g.walk input enter limit i = g.walk input enter' limit i :=
        ih (Nat.le_trans (hg.child_le hn i hi) hid)
      unfold walk
      cases hn : g.nodes[id]? with
      | none => rfl
      | some node =>
          cases node with
          | composite name ids => exact he hn hid
          | sequence items =>
              exact congrArg (Match.sequence []) (List.map_congr_left fun i hi => child hn hi)
          | alternation i j =>
              have hi : g.walk input enter limit i = _ := child hn (.head _)
              have hj : g.walk input enter limit j = _ := child hn (.tail _ (.head _))
              simp only [hi, hj]
          | repetition item =>
              have hi : g.walk input enter limit item = _ := child hn (.head _)
              simp only [hi]
          | literal text => rfl
          | terminal name row => rfl

/-- All budgets that are no less than the height of a node match it alike. -/
theorem HasHeights.resolveWithin_congr {budget budget' id : Nat} (hb : height id ≤ budget)
    (hb' : height id ≤ budget') :
    g.resolveWithin input budget id = g.resolveWithin input budget' id := by
  induction budget generalizing budget' id with
  | zero =>
      -- a node without height has no rule below it
      rw [resolveWithin_eq_walk, resolveWithin_eq_walk]
      refine hg.walk_congr (fun hn hle => ?_) hb
      exact absurd (hg.rule_pos hn) (Nat.not_lt.2 hle)
  | succ budget ih =>
      rw [resolveWithin_eq_walk, resolveWithin_eq_walk]
      refine hg.walk_congr (fun {i name ids} hn hle => ?_) (Nat.le_refl (height id))
      have hpos := hg.rule_pos hn
      obtain ⟨c, rfl⟩ : ∃ c, budget' = c + 1 := ⟨budget' - 1, by omega⟩
      refine congrArg (Match.rule input name) (List.map_congr_left fun j hj => ?_)
      have hlt := hg.rule_lt hn j hj
      exact ih (by omega) (by omega)

end Budgets

/-! ## Steps -/

/-- The nodes that a task begins or goes on with. -/
def Task.pending : Task → List Nat
  | .node id _ => [id]
  | .items _ rest _ => rest
  | .round _ item _ => [item]
  | .alternatives _ rest _ => rest
  | .outcome _ => []

/-- The nodes that whoever waits goes on with. -/
def Frame.pending : Frame → List Nat
  | .item _ rest => rest
  | .left right _ => [right]
  | .round _ body _ => [body]
  | .alternative _ rest _ => rest
  | .rule => []

/-- How many rules are left with the outcome. -/
def Frame.levels : Frame → Nat
  | .rule => 1
  | _ => 0

/-- The depth leaves room for the heights of the nodes. -/
def HaveRoom (height : Nat → Nat) (bound depth : Nat) (ids : List Nat) : Prop :=
  ∀ id ∈ ids, depth + height id ≤ bound

/-- Each frame has room at the depth at which it goes on. -/
def StackHasRoom (height : Nat → Nat) (bound : Nat) : (depth : Nat) → List Frame → Prop
  | _, [] => True
  | depth, frame :: stack =>
    HaveRoom height bound depth frame.pending ∧
      StackHasRoom height bound (depth - frame.levels) stack

namespace Machine

structure HasRoom (height : Nat → Nat) (bound : Nat) (m : Machine) : Prop where
  task : HaveRoom height bound m.resolver.depth m.task.pending
  stack : StackHasRoom height bound m.resolver.depth m.stack

/-- The next step fails a rule for want of depth. -/
def IsAtLimit (g : Graph) (m : Machine) : Prop :=
  ∃ id position name ids, m.task = .node id position ∧
    g.nodes[id]? = some (.composite name ids) ∧ nestingLimit ≤ m.resolver.depth

theorem hasRoom_give {out : Outcome} {stack : List Frame} {r : Resolver}
    (h : StackHasRoom height bound r.depth stack) : (give out stack r).HasRoom height bound :=
  ⟨by simp [give, Task.pending, HaveRoom], h⟩

theorem hasRoom_resume {frame : Frame} {out : Outcome} {stack : List Frame} {r : Resolver}
    (h : StackHasRoom height bound r.depth (frame :: stack)) :
    (resume input frame out stack r).HasRoom height bound := by
  obtain ⟨hp, hs⟩ := h
  cases frame with
  | item done rest =>
      cases out with
      | ok success => exact ⟨hp, hs⟩
      | error f => exact hasRoom_give hs
  | left right position =>
      cases out with
      | ok success => exact hasRoom_give hs
      | error f => exact ⟨hp, hs⟩
  | round done item position =>
      cases out with
      | ok success =>
          simp only [resume]
          split
          · exact hasRoom_give hs
          · exact ⟨hp, hs⟩
      | error f => cases done <;> exact hasRoom_give hs
  | alternative name rest position =>
      cases out with
      | error f => exact ⟨hp, hs⟩
      | ok success =>
          simp only [resume]
          split
          · exact hasRoom_give hs
          · exact ⟨hp, hs⟩
  | rule => exact hasRoom_give hs

/-- Entering a rule takes one level, and below it one less is needed. -/
theorem HasRoom.step (hg : g.HasHeights height) {m : Machine} (h : m.HasRoom height bound) :
    (step g input m).HasRoom height bound := by
  obtain ⟨task, stack, r⟩ := m
  obtain ⟨ht, hs⟩ := h
  cases task with
  | node id position =>
      have hid : r.depth + height id ≤ bound := ht id (.head _)
      have children {node : GraphNode} (hn : g.nodes[id]? = some node) :
          HaveRoom height bound r.depth node.children := fun i hi => by
        have := hg.child_le hn i hi
        omega
      simp only [Machine.step]
      cases hn : g.nodes[id]? with
      | none => exact ⟨ht, hs⟩
      | some node =>
          cases node with
          | composite name ids =>
              simp only
              split
              · exact hasRoom_give hs
              · refine ⟨fun i hi => ?_, fun _ hi => (by cases hi), hs⟩
                have := hg.rule_lt hn i hi
                change r.depth + 1 + height i ≤ bound
                omega
          | sequence items => exact ⟨children hn, hs⟩
          | alternation left right =>
              obtain ⟨hleft, hright⟩ := List.forall_mem_cons.1 (children hn)
              exact ⟨List.forall_mem_singleton.2 hleft, hright, hs⟩
          | repetition item => exact ⟨children hn, hs⟩
          | literal text => exact hasRoom_give hs
          | terminal name row => exact hasRoom_give hs
  | items done rest position =>
      cases rest with
      | nil => exact hasRoom_give hs
      | cons id rest =>
          obtain ⟨hid, hrest⟩ := List.forall_mem_cons.1 ht
          exact ⟨fun i hi => List.mem_singleton.1 hi ▸ hid, hrest, hs⟩
  | round done item position => exact ⟨ht, ht, hs⟩
  | alternatives name rest position =>
      cases rest with
      | nil => exact hasRoom_give hs
      | cons id rest =>
          obtain ⟨hid, hrest⟩ := List.forall_mem_cons.1 ht
          exact ⟨fun i hi => List.mem_singleton.1 hi ▸ hid, hrest, hs⟩
  | outcome out =>
      cases stack with
      | nil => exact hasRoom_give hs
      | cons frame stack => exact hasRoom_resume hs

/-- A machine with room comes to no rule with the limit used up, however far it goes. -/
theorem HasRoom.not_isAtLimit (hg : g.HasHeights height) {m : Machine}
    (h : m.HasRoom height nestingLimit) (count : Nat) :
    ¬((Machine.step g input)^[count] m).IsAtLimit g := by
  have room : ((Machine.step g input)^[count] m).HasRoom height nestingLimit := by
    induction count with
    | zero => exact h
    | succ count ih =>
        rw [Function.iterate_succ_apply']
        exact ih.step hg
  rintro ⟨id, position, name, ids, ht, hn, hfull⟩
  have := room.task id (by simp [ht, Task.pending])
  have := hg.rule_pos hn
  omega

end Machine

end NodeScript.Graph
