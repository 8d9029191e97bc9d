import Mathlib.Logic.Function.Iterate
import NodeScript.Proofs.Grammar.DirectReading
import NodeScript.Proofs.Grammar.Layers
import NodeScript.Proofs.Grammar.Successes

/-!
# Matching one step at a time

Matching as the steps of a machine. It goes from node to node and from round to round without any
bound, and keeps the nesting depth in a counter that goes up where a rule is entered and down where
it is left. On a compiled graph it comes back to whoever waits for a node with what `resolveWithin`
gives, and with the depth that it began with (`performs_resolveWithin`).
-/

namespace NodeScript

/-- What is kept from one node to the next: how many rules are entered and not left yet, and the
record of failures. -/
structure Resolver where
  depth : Nat
  diagnostics : Diagnostics

namespace Resolver

def fresh : Resolver :=
  ⟨0, .empty⟩

def record (r : Resolver) (f : Failure) : Resolver :=
  { r with diagnostics := r.diagnostics.record f }

end Resolver

namespace Graph

/-- What comes next. -/
inductive Task where
  /-- A node, from a position on. -/
  | node (id position : Nat)
  /-- The items of a sequence that are left, after trees that are there, latest first. -/
  | items (done : List Tree) (rest : List Nat) (position : Nat)
  /-- One more round of a repetition. -/
  | round (done : List Tree) (item position : Nat)
  /-- The alternatives of a rule that are left. -/
  | alternatives (name : String) (rest : List Nat) (position : Nat)
  /-- Handing an outcome to whoever waits for it. -/
  | outcome (out : Outcome)

/-- What waits for an outcome. -/
inductive Frame where
  /-- A sequence waits for an item. -/
  | item (done : List Tree) (rest : List Nat)
  /-- An alternation waits for its left, with the right to go on with. -/
  | left (right position : Nat)
  /-- A repetition waits for a round. -/
  | round (done : List Tree) (item position : Nat)
  /-- A rule waits for an alternative. -/
  | alternative (name : String) (rest : List Nat) (position : Nat)
  /-- A rule has been entered, and is left with the outcome. -/
  | rule

structure Machine where
  task : Task
  stack : List Frame
  resolver : Resolver

namespace Machine

/-- The machine that hands on an outcome. -/
def give (out : Outcome) (stack : List Frame) (r : Resolver) : Machine :=
  ⟨.outcome out, stack, r⟩

/-- Going on where an outcome has been waited for. -/
def resume (input : Input) : Frame → Outcome → List Frame → Resolver → Machine
  | .item done rest, .ok (t, next), stack, r => ⟨.items (t :: done) rest next, stack, r⟩
  | .item _ _, .error f, stack, r => give (.error f) stack r
  | .left _ _, .ok success, stack, r => give (.ok success) stack r
  | .left right position, .error f, stack, r => ⟨.node right position, stack, r.record f⟩
  | .round done item position, .ok (t, next), stack, r =>
    if next = position then give (.ok ((Tree.list (t :: done).reverse).flatten, next)) stack r
    else ⟨.round (t :: done) item next, stack, r⟩
  | .round [] _ _, .error f, stack, r => give (.error f) stack r
  | .round (t :: done) _ position, .error f, stack, r =>
    give (.ok ((Tree.list (t :: done).reverse).flatten, position)) stack (r.record f)
  | .alternative name rest position, .error f, stack, r =>
    ⟨.alternatives name rest position, stack, r.record f⟩
  | .alternative name rest position, .ok (t, next), stack, r =>
    match input.builders.build name t with
    | .ok built => give (.ok (built, next)) stack r
    | .error e =>
      ⟨.alternatives name rest position, stack,
        r.record (input.failure (name ++ " (" ++ e.message ++ ")") position)⟩
  | .rule, out, stack, r => give out stack { r with depth := r.depth - 1 }

/-- One step. Nothing moves where an outcome is handed to no one, or a node is not in the graph. -/
def step (g : Graph) (input : Input) : Machine → Machine
  | ⟨.node id position, stack, r⟩ =>
    match g.nodes[id]? with
    | some (.composite name alternatives) =>
      if nestingLimit ≤ r.depth then
        give (.error (input.failure (name ++ " (recursion limit)") position)) stack r
      else
        ⟨.alternatives name alternatives position, .rule :: stack, { r with depth := r.depth + 1 }⟩
    | some (.sequence items) => ⟨.items [] items position, stack, r⟩
    | some (.alternation left right) => ⟨.node left position, .left right position :: stack, r⟩
    | some (.repetition item) => ⟨.round [] item position, stack, r⟩
    | some (.literal text) =>
      give (Match.one input (Text.quoted text) (·.text == text) position r.diagnostics).1 stack r
    | some (.terminal name row) =>
      give (Match.one input name (fun t => row.any (·.accepts t.text)) position r.diagnostics).1
        stack r
    | none => ⟨.node id position, stack, r⟩
  | ⟨.items done [] position, stack, r⟩ =>
    give (.ok ((Tree.list done.reverse).flatten, position)) stack r
  | ⟨.items done (id :: rest) position, stack, r⟩ =>
    ⟨.node id position, .item done rest :: stack, r⟩
  | ⟨.round done item position, stack, r⟩ =>
    ⟨.node item position, .round done item position :: stack, r⟩
  | ⟨.alternatives name [] position, stack, r⟩ =>
    give (.error (input.failure name position)) stack r
  | ⟨.alternatives name (id :: rest) position, stack, r⟩ =>
    ⟨.node id position, .alternative name rest position :: stack, r⟩
  | ⟨.outcome out, [], r⟩ => give out [] r
  | ⟨.outcome out, frame :: stack, r⟩ => resume input frame out stack r

theorem step_give (g : Graph) (input : Input) (out : Outcome) (frame : Frame)
    (stack : List Frame) (r : Resolver) :
    step g input (give out (frame :: stack) r) = resume input frame out stack r :=
  rfl

/-- Finitely many steps lead from one machine to another. -/
def Leads (g : Graph) (input : Input) (m m' : Machine) : Prop :=
  ∃ count, (step g input)^[count] m = m'

variable {g : Graph} {input : Input} {m m' m'' : Machine}

theorem Leads.refl : Leads g input m m :=
  ⟨0, rfl⟩

theorem Leads.trans (h : Leads g input m m') (h' : Leads g input m' m'') : Leads g input m m'' := by
  obtain ⟨count, rfl⟩ := h
  obtain ⟨count', rfl⟩ := h'
  exact ⟨count' + count, Function.iterate_add_apply _ _ _ _⟩

theorem Leads.next (h : Leads g input (step g input m) m') : Leads g input m m' :=
  Leads.trans ⟨1, rfl⟩ h

/-- The last step. -/
theorem leads_step (g : Graph) (input : Input) (m : Machine) : Leads g input m (step g input m) :=
  ⟨1, rfl⟩

/-- A machine comes to rest at most once. -/
theorem Leads.unique {rest rest' : Machine} (h : Leads g input m rest)
    (h' : Leads g input m rest') (hs : step g input rest = rest)
    (hs' : step g input rest' = rest') : rest = rest' := by
  obtain ⟨count, rfl⟩ := h
  obtain ⟨count', rfl⟩ := h'
  calc
    _ = (step g input)^[count'] ((step g input)^[count] m) :=
        (Function.iterate_fixed hs count').symm
    _ = (step g input)^[count] ((step g input)^[count'] m) := by
        rw [← Function.iterate_add_apply, ← Function.iterate_add_apply, Nat.add_comm]
    _ = _ := Function.iterate_fixed hs' count

/-! ## What the machine performs -/

/-- The machine that hands on what a match gives. -/
def finish (f : Match) (position : Nat) (stack : List Frame) (r : Resolver) : Machine :=
  give (f position r.diagnostics).1 stack { r with diagnostics := (f position r.diagnostics).2 }

/-- Wherever the depth leaves a budget of rules, the machine comes from the node to what the match
gives, and is back at the depth where it was. -/
def Performs (g : Graph) (input : Input) (budget : Nat) (id : Nat) (f : Match) : Prop :=
  ∀ position stack r, nestingLimit - r.depth = budget →
    Leads g input ⟨.node id position, stack, r⟩ (finish f position stack r)

variable {budget : Nat}

/-- Going on with what a node has given. -/
theorem Performs.leads {id position : Nat} {f : Match} {stack : List Frame} {r : Resolver}
    {out : Outcome} {d : Diagnostics} (h : Performs g input budget id f)
    (hr : nestingLimit - r.depth = budget) (hf : f position r.diagnostics = (out, d))
    (hm : Leads g input (give out stack { r with diagnostics := d }) m') :
    Leads g input ⟨.node id position, stack, r⟩ m' := by
  refine (h position stack r hr).trans ?_
  rwa [finish, hf]

theorem performs_items {ids : List Nat} {fs : List Match}
    (h : List.Forall₂ (Performs g input budget) ids fs) (done : List Tree) (position : Nat)
    (stack : List Frame) (r : Resolver) (hr : nestingLimit - r.depth = budget) :
    Leads g input ⟨.items done ids position, stack, r⟩
      (finish (.sequence done fs) position stack r) := by
  induction h generalizing done position r with
  | nil => exact leads_step g input _
  | @cons id f ids fs hf _ ih =>
      refine .next ?_
      match hd : f position r.diagnostics with
      | (.ok (t, next), d) =>
          refine hf.leads hr hd (.next ?_)
          simp only [step_give, resume, finish, Match.sequence, hd]
          exact ih (t :: done) next { r with diagnostics := d } hr
      | (.error failure, d) =>
          refine hf.leads hr hd (.next ?_)
          simp only [step_give, resume, finish, Match.sequence, hd]
          exact .refl

theorem performs_alternatives {ids : List Nat} {fs : List Match}
    (h : List.Forall₂ (Performs g input budget) ids fs) (name : String) (position : Nat)
    (stack : List Frame) (r : Resolver) (hr : nestingLimit - r.depth = budget) :
    Leads g input ⟨.alternatives name ids position, stack, r⟩
      (finish (.rule input name fs) position stack r) := by
  induction h generalizing r with
  | nil => exact leads_step g input _
  | @cons id f ids fs hf _ ih =>
      refine .next ?_
      obtain ⟨out, d, hd⟩ : ∃ out d, f position r.diagnostics = (out, d) := ⟨_, _, rfl⟩
      cases out with
      | error failure =>
          refine hf.leads hr hd (.next ?_)
          simp only [step_give, resume, finish, Match.rule, hd]
          exact ih { r with diagnostics := d.record failure } hr
      | ok success =>
          obtain ⟨t, next⟩ := success
          refine hf.leads hr hd (.next ?_)
          cases hb : input.builders.build name t with
          | ok built =>
              simp only [step_give, resume, finish, Match.rule, hd, hb]
              exact .refl
          | error e =>
              let refusal := input.failure (name ++ " (" ++ e.message ++ ")") position
              simp only [step_give, resume, finish, Match.rule, hd, hb]
              exact ih { r with diagnostics := d.record refusal } hr

theorem performs_alternation {i j id : Nat} {left right : Match}
    (hn : g.nodes[id]? = some (.alternation i j)) (hl : Performs g input budget i left)
    (hr : Performs g input budget j right) :
    Performs g input budget id (.alternation left right) := by
  intro position stack r hb
  refine .next ?_
  simp only [step, hn]
  match hd : left position r.diagnostics with
  | (.ok success, d) =>
      refine hl.leads hb hd (.next ?_)
      simp only [step_give, resume, finish, Match.alternation, hd]
      exact .refl
  | (.error failure, d) =>
      refine hl.leads hb hd (.next ?_)
      simp only [step_give, resume, finish, Match.alternation, hd]
      exact hr position stack { r with diagnostics := d.record failure } hb

theorem performs_one {id : Nat} {expected : String} {test : Token → Bool}
    (hs : ∀ position stack r, step g input ⟨.node id position, stack, r⟩ =
      give (Match.one input expected test position r.diagnostics).1 stack r) :
    Performs g input budget id (.one input expected test) := by
  intro position stack r _
  have same : (Match.one input expected test position r.diagnostics).2 = r.diagnostics := by
    unfold Match.one
    cases input.tokens[position]? with
    | none => rfl
    | some t => by_cases h : test t <;> simp [h]
  refine .next ?_
  rw [hs, finish, same]
  exact .refl

/-! ## Repetitions -/

/-- A match that never goes back, and beyond the tokens not on. -/
def Advances (input : Input) (f : Match) : Prop :=
  Match.Ensures f fun position _ next => position ≤ next ∧ next ≤ max position input.tokens.size

/-- Further rounds, of which there are enough for the tokens that are left. -/
theorem performs_further {item : Nat} {f : Match} (h : Performs g input budget item f)
    (ha : Advances input f) {rounds : Nat} (t : Tree) (done : List Tree) (position : Nat)
    (stack : List Frame) (r : Resolver) (hr : nestingLimit - r.depth = budget)
    (hl : input.tokens.size - position < rounds) :
    Leads g input ⟨.round (t :: done) item position, stack, r⟩
      (finish (.further f rounds (t :: done)) position stack r) := by
  induction rounds generalizing t done position r with
  | zero => omega
  | succ rounds ih =>
      refine .next ?_
      match hd : f position r.diagnostics with
      | (.error failure, d) =>
          refine h.leads hr hd (.next ?_)
          simp only [step_give, resume, finish, Match.further, hd]
          exact .refl
      | (.ok (t', next), d) =>
          obtain ⟨hle, hend⟩ := ha (d := r.diagnostics) (by rw [hd])
          refine h.leads hr hd (.next ?_)
          by_cases hs : next = position
          · simp only [step_give, resume, finish, Match.further, hd, hs, if_true]
            exact .refl
          · -- the round has taken tokens, so fewer are left
            simp only [step_give, resume, finish, Match.further, hd, hs, if_false]
            exact ih t' (t :: done) next { r with diagnostics := d } hr (by omega)

theorem performs_repetition {item id : Nat} {f : Match}
    (hn : g.nodes[id]? = some (.repetition item)) (h : Performs g input budget item f)
    (ha : Advances input f) :
    Performs g input budget id (.oneOrMore input.tokens.size f) := by
  intro position stack r hr
  refine .next ?_
  simp only [step, hn]
  refine .next ?_
  match hd : f position r.diagnostics with
  | (.error failure, d) =>
      refine h.leads hr hd (.next ?_)
      simp only [step_give, resume, finish, Match.oneOrMore, hd]
      exact .refl
  | (.ok (t, next), d) =>
      obtain ⟨hle, hend⟩ := ha (d := r.diagnostics) (by rw [hd])
      refine h.leads hr hd (.next ?_)
      by_cases hs : next = position
      · simp only [step_give, resume, finish, Match.oneOrMore, hd, hs, if_true]
        exact .refl
      · simp only [step_give, resume, finish, Match.oneOrMore, hd, hs, if_false]
        exact performs_further h ha t [] next stack { r with diagnostics := d } hr (by omega)

/-! ## Nodes -/

theorem performs_sequence {id : Nat} {items : List Nat} {fs : List Match}
    (hn : g.nodes[id]? = some (.sequence items))
    (h : List.Forall₂ (Performs g input budget) items fs) :
    Performs g input budget id (.sequence [] fs) := by
  intro position stack r hr
  refine .next ?_
  simp only [step, hn]
  exact performs_items h [] position stack r hr

theorem performs_limit {id : Nat} {name : String} {alternatives : List Nat}
    (hn : g.nodes[id]? = some (.composite name alternatives)) :
    Performs g input 0 id (.fail input (name ++ " (recursion limit)")) := by
  intro position stack r hr
  have full : nestingLimit ≤ r.depth := Nat.le_of_sub_eq_zero hr
  refine .next ?_
  simp only [step, hn, full, if_true]
  exact .refl

/-- The alternatives have one level less, which is given back when the rule is left. -/
theorem performs_rule {id : Nat} {name : String} {alternatives : List Nat} {fs : List Match}
    (hn : g.nodes[id]? = some (.composite name alternatives))
    (h : List.Forall₂ (Performs g input budget) alternatives fs) :
    Performs g input (budget + 1) id (.rule input name fs) := by
  intro position stack r hr
  have room : ¬ nestingLimit ≤ r.depth := by omega
  refine .next ?_
  simp only [step, hn, room, if_false]
  have inner : nestingLimit - (r.depth + 1) = budget := by omega
  exact (performs_alternatives h name position _ _ inner).trans (leads_step g input _)

/-- Between two rules the layers go down, and so does the limit on nodes. -/
theorem performs_walk (hg : IsLayered g.nodes) {enter : String → List Nat → Match}
    (he : ∀ {id name alternatives}, g.nodes[id]? = some (.composite name alternatives) →
      Performs g input budget id (enter name alternatives))
    (hy : ∀ {id name alternatives}, g.nodes[id]? = some (.composite name alternatives) →
      Match.Ensures (enter name alternatives) (Yields g input id))
    {limit id : Nat} (hlt : id < limit) (hid : id < g.nodes.size) :
    Performs g input budget id (g.walk input enter limit id) := by
  induction limit generalizing id with
  | zero => omega
  | succ limit ih =>
      have below {node : GraphNode} (hn : g.nodes[id]? = some node) (hr : node.isRule = false)
          {child : Nat} (hc : child ∈ node.children) :
          Performs g input budget child (g.walk input enter limit child) :=
        ih (Nat.lt_of_lt_of_le (hg.before hn hr child hc) (Nat.le_of_lt_succ hlt))
          (hg.inside hn child hc)
      unfold walk
      cases hn : g.nodes[id]? with
      | none => exact absurd hid (Nat.not_lt.2 (Array.getElem?_eq_none_iff.1 hn))
      | some node =>
          cases node with
          | composite name alternatives => exact he hn
          | sequence items =>
              refine performs_sequence hn (List.forall₂_map_right_iff.2 (List.forall₂_same.2 ?_))
              exact fun child hc => below hn rfl hc
          | alternation i j =>
              have hl : Performs g input budget i _ := below hn rfl (.head _)
              have hr : Performs g input budget j _ := below hn rfl (.tail _ (.head _))
              exact performs_alternation hn hl hr
          | repetition item =>
              refine performs_repetition hn (below hn rfl (.head _)) ?_
              exact fun _ _ _ _ h => (walk_yields hy limit item h).advances
          | literal text =>
              refine performs_one fun position stack r => ?_
              simp only [step, hn]
          | terminal name row =>
              refine performs_one fun position stack r => ?_
              simp only [step, hn]

theorem enterRule_yields (budget : Nat) {id : Nat} {name : String} {alternatives : List Nat}
    (hn : g.nodes[id]? = some (.composite name alternatives)) :
    Match.Ensures (g.enterRule input budget name alternatives) (Yields g input id) := by
  cases budget with
  | zero => exact Match.ensures_fail _ _
  | succ budget =>
      refine Match.ensures_rule name fun m hm => ?_
      obtain ⟨alternative, ha, rfl⟩ := List.mem_map.1 hm
      intro position d t next h built hb
      exact .rule hn ha (resolveWithin_yields g input budget alternative h) hb

/-- The machine performs what `resolveWithin` says, with the budget that the depth leaves. -/
theorem performs_resolveWithin (hg : IsLayered g.nodes) (input : Input) (budget : Nat) {id : Nat}
    (hid : id < g.nodes.size) : Performs g input budget id (g.resolveWithin input budget id) := by
  induction budget generalizing id with
  | zero =>
      rw [resolveWithin_eq_walk]
      exact performs_walk hg performs_limit (enterRule_yields 0) hid hid
  | succ budget ih =>
      rw [resolveWithin_eq_walk]
      refine performs_walk hg (fun {id name alternatives} hn => ?_) (enterRule_yields _) hid hid
      refine performs_rule hn (List.forall₂_map_right_iff.2 (List.forall₂_same.2 ?_))
      exact fun alternative ha => ih (hg.inside hn alternative ha)

end Machine

end Graph

end NodeScript
