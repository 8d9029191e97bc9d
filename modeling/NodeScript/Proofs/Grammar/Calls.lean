import NodeScript.Proofs.Grammar.Machine

/-!
# What builders are called with

Whatever has been tried and given up before, an outcome that the machine hands on is a failure or a
tree that its node can make. So a builder is only ever called with a tree that the phrases of an
alternative of its rule make (`tries_of_call?`).
-/

namespace NodeScript.Graph

variable {g : Graph} {input : Input}

theorem YieldsAll.concat {ids : List Nat} {id start position next : Nat} {ts : List Tree} {t : Tree}
    (hs : YieldsAll g input ids start ts position) (h : Yields g input id position t next) :
    YieldsAll g input (ids ++ [id]) start (ts ++ [t]) next := by
  match hs with
  | .nil => exact .cons h .nil
  | .cons h' hs => exact .cons h' (hs.concat h)

/-! ## The trees that the machine hands on -/

/-- The stack waits for the outcome of the node, matched from the position on. What it holds is what
the nodes matched before have made. -/
inductive Waits (g : Graph) (input : Input) : (id position : Nat) → List Frame → Prop
  | nobody {id position : Nat} : Waits g input id position []
  | item {id i start position : Nat} {before rest : List Nat} {done : List Tree}
      {stack : List Frame} :
    g.nodes[id]? = some (.sequence (before ++ i :: rest)) →
    YieldsAll g input before start done.reverse position → Waits g input id start stack →
    Waits g input i position (.item done rest :: stack)
  | left {id i j position : Nat} {stack : List Frame} :
    g.nodes[id]? = some (.alternation i j) → Waits g input id position stack →
    Waits g input i position (.left j position :: stack)
  /-- What the right makes, the alternation makes. -/
  | right {id i j position : Nat} {stack : List Frame} :
    g.nodes[id]? = some (.alternation i j) → Waits g input id position stack →
    Waits g input j position stack
  | round {id i start position : Nat} {done : List Tree} {stack : List Frame} :
    g.nodes[id]? = some (.repetition i) →
    YieldsAll g input (List.replicate done.length i) start done.reverse position →
    Waits g input id start stack → Waits g input i position (.round done i position :: stack)
  | alternative {id i position : Nat} {name : String} {ids rest : List Nat} {stack : List Frame} :
    g.nodes[id]? = some (.composite name ids) → i ∈ ids → rest ⊆ ids →
    Waits g input id position stack →
    Waits g input i position (.alternative name rest position :: stack)
  | rule {id position : Nat} {stack : List Frame} : Waits g input id position stack →
    Waits g input id position (.rule :: stack)

namespace Machine

/-- What the machine is about is what the stack waits for, and a tree that it hands on is one that
the node can make. -/
inductive Makes (g : Graph) (input : Input) : Machine → Prop
  | node {id position : Nat} {stack : List Frame} {r : Resolver} :
    Waits g input id position stack → Makes g input ⟨.node id position, stack, r⟩
  | items {id start position : Nat} {before rest : List Nat} {done : List Tree}
      {stack : List Frame} {r : Resolver} :
    g.nodes[id]? = some (.sequence (before ++ rest)) →
    YieldsAll g input before start done.reverse position → Waits g input id start stack →
    Makes g input ⟨.items done rest position, stack, r⟩
  | round {id i start position : Nat} {done : List Tree} {stack : List Frame} {r : Resolver} :
    g.nodes[id]? = some (.repetition i) →
    YieldsAll g input (List.replicate done.length i) start done.reverse position →
    Waits g input id start stack → Makes g input ⟨.round done i position, stack, r⟩
  | alternatives {id position : Nat} {name : String} {ids rest : List Nat} {stack : List Frame}
      {r : Resolver} :
    g.nodes[id]? = some (.composite name ids) → rest ⊆ ids → Waits g input id position stack →
    Makes g input ⟨.alternatives name rest position, stack, r⟩
  | success {id position next : Nat} {t : Tree} {stack : List Frame} {r : Resolver} :
    Yields g input id position t next → Waits g input id position stack →
    Makes g input (give (.ok (t, next)) stack r)
  | failure {id position : Nat} {f : Failure} {stack : List Frame} {r : Resolver} :
    Waits g input id position stack → Makes g input (give (.error f) stack r)

theorem makes_resume_success {id position next : Nat} {t : Tree} {frame : Frame}
    {frames stack : List Frame} {r : Resolver} (hw : Waits g input id position frames)
    (hf : frames = frame :: stack) (h : Yields g input id position t next) :
    Makes g input (resume input frame (.ok (t, next)) stack r) := by
  induction hw with
  | nobody => cases hf
  | @item id i start position before rest done _ hn hs hw _ =>
      cases hf
      have hn : g.nodes[id]? = some (.sequence ((before ++ [i]) ++ rest)) := by simpa using hn
      refine .items hn ?_ hw
      simpa using hs.concat h
  | left hn hw _ =>
      cases hf
      exact .success (.left hn h) hw
  | right hn _ ih => exact ih hf (.right hn h)
  | @round id i start position done _ hn hs hw _ =>
      cases hf
      have hs : YieldsAll g input (List.replicate (done.length + 1) i) start (t :: done).reverse
          next := by
        rw [List.replicate_succ', List.reverse_cons]
        exact hs.concat h
      simp only [resume]
      split
      · exact .success (.repetition done.length hn hs) hw
      · exact .round hn hs hw
  | alternative hn hi hr hw _ =>
      cases hf
      simp only [resume]
      split
      · exact .success (.rule hn hi h ‹_›) hw
      · exact .alternatives hn hr hw
  | rule hw _ =>
      cases hf
      exact .success h hw

theorem makes_resume_failure {id position : Nat} {f : Failure} {frame : Frame}
    {frames stack : List Frame} {r : Resolver} (hw : Waits g input id position frames)
    (hf : frames = frame :: stack) : Makes g input (resume input frame (.error f) stack r) := by
  induction hw with
  | nobody => cases hf
  | item _ _ hw _ =>
      cases hf
      exact .failure hw
  | left hn hw _ =>
      cases hf
      exact .node (.right hn hw)
  | right _ _ ih => exact ih hf
  | @round _ _ _ _ done _ hn hs hw _ =>
      cases hf
      match done, hs with
      | [], _ => exact .failure hw
      | t :: done, hs => exact .success (.repetition done.length hn hs) hw
  | alternative hn _ hr hw _ =>
      cases hf
      exact .alternatives hn hr hw
  | rule hw _ =>
      cases hf
      exact .failure hw

theorem makes_one {id position : Nat} {expected : String} {test : Token → Bool}
    {stack : List Frame} {r : Resolver} (hw : Waits g input id position stack)
    (h : ∀ t, input.tokens[position]? = some t → test t →
      Yields g input id position (.token t) (position + 1)) :
    Makes g input (give (Match.one input expected test position r.diagnostics).1 stack r) := by
  unfold Match.one
  match ht : input.tokens[position]? with
  | none => exact .failure hw
  | some t =>
      by_cases htest : test t
      · simp only [htest, if_true]
        exact .success (h t ht htest) hw
      · simp only [htest]
        exact .failure hw

theorem Makes.step {m : Machine} (h : Makes g input m) : Makes g input (step g input m) := by
  cases h with
  | @node id position stack r hw =>
      simp only [Machine.step]
      cases hn : g.nodes[id]? with
      | none => exact .node hw
      | some node =>
          cases node with
          | composite name ids =>
              simp only
              split
              · exact .failure hw
              · exact .alternatives hn (List.Subset.refl _) (.rule hw)
          | sequence children =>
              have hn : g.nodes[id]? = some (.sequence ([] ++ children)) := hn
              exact .items hn .nil hw
          | alternation i j => exact .node (.left hn hw)
          | repetition i => exact .round hn .nil hw
          | literal text =>
              exact makes_one hw fun t ht htext => .literal hn ht (beq_iff_eq.1 htext)
          | terminal name row =>
              cases row with
              | none => exact makes_one hw fun _ _ hrow => by cases hrow
              | some row => exact makes_one hw fun _ ht hrow => .terminal hn ht hrow
  | @items id start position before rest done stack r hn hs hw =>
      cases rest with
      | nil =>
          rw [List.append_nil] at hn
          exact .success (.sequence hn hs) hw
      | cons i rest => exact .node (.item hn hs hw)
  | round hn hs hw => exact .node (.round hn hs hw)
  | @alternatives id position name ids rest stack r hn hr hw =>
      cases rest with
      | nil => exact .failure hw
      | cons i rest =>
          obtain ⟨hi, hr⟩ := List.cons_subset.1 hr
          exact .node (.alternative hn hi hr hw)
  | @success id position next t stack r h hw =>
      cases stack with
      | nil => exact .success h hw
      | cons frame stack => exact makes_resume_success hw rfl h
  | @failure id position f stack r hw =>
      cases stack with
      | nil => exact .failure hw
      | cons frame stack => exact makes_resume_failure hw rfl

theorem makes_iterate {m : Machine} (h : Makes g input m) (count : Nat) :
    Makes g input ((Machine.step g input)^[count] m) := by
  induction count with
  | zero => exact h
  | succ count ih =>
      rw [Function.iterate_succ_apply']
      exact ih.step

/-- The rule whose builder, if it has one, the next step calls, and the tree that it is called
with. -/
def call? : Machine → Option (String × Tree)
  | ⟨.outcome (.ok (t, _)), .alternative name _ _ :: _, _⟩ => some (name, t)
  | _ => none

theorem call?_eq_some {m : Machine} {name : String} {t : Tree} (h : m.call? = some (name, t)) :
    ∃ next rest position stack, m.task = .outcome (.ok (t, next)) ∧
      m.stack = .alternative name rest position :: stack := by
  unfold call? at h
  split at h
  · obtain ⟨rfl, rfl⟩ := Prod.mk.inj (Option.some.inj h)
    exact ⟨_, _, _, _, rfl, rfl⟩
  · cases h

theorem waits_alternative {id position next : Nat} {t : Tree} {frames : List Frame} {name : String}
    {rest : List Nat} {start : Nat} {stack : List Frame} (hw : Waits g input id position frames)
    (hf : frames = .alternative name rest start :: stack)
    (h : Yields g input id position t next) : ∃ (rule i : Nat) (ids : List Nat),
      g.nodes[rule]? = some (.composite name ids) ∧ i ∈ ids ∧ Yields g input i position t next := by
  induction hw with
  | right hn _ ih => exact ih hf (.right hn h)
  | alternative hn hi _ _ _ =>
      cases hf
      exact ⟨_, _, _, hn, hi, h⟩
  | _ => cases hf

/-- A builder is called with a tree that an alternative of its rule makes. -/
theorem Makes.of_call? {m : Machine} {name : String} {t : Tree} (h : Makes g input m)
    (hc : m.call? = some (name, t)) : ∃ (rule i position next : Nat) (ids : List Nat),
      g.nodes[rule]? = some (.composite name ids) ∧ i ∈ ids ∧ Yields g input i position t next := by
  obtain ⟨next, rest, start, stack, ht, hs⟩ := call?_eq_some hc
  cases h with
  | success hy hw =>
      cases ht
      obtain ⟨rule, i, ids, hn, hi, hy⟩ := waits_alternative hw hs hy
      exact ⟨rule, i, _, _, ids, hn, hi, hy⟩
  | _ => cases ht

end Machine

/-! ## The trees that phrases make -/

variable {table : RuleTable} {tokens : TokenTable}

/-- A node that stands for the phrase can make the tree. -/
def CanMake (g : Graph) (tokens : TokenTable) (input : Input) (p : Phrase) (t : Tree) : Prop :=
  ∃ id position next, g.Denotes tokens p id ∧ Yields g input id position t next

/-- The phrases of an alternative of the rule make the tree, which is what the builder is called
with. -/
def Tries (g : Graph) (table : RuleTable) (tokens : TokenTable) (input : Input) (name : String)
    (t : Tree) : Prop :=
  ∃ phrases, some phrases ∈ table.phrasesOf name ∧ ∃ trees,
    List.Forall₂ (g.CanMake tokens input) phrases trees ∧ t = (Tree.list trees).flatten

theorem canMake_all {phrases : List Phrase} {ids : List Nat}
    (hd : List.Forall₂ (g.Denotes tokens) phrases ids) {position next : Nat} {trees : List Tree}
    (h : YieldsAll g input ids position trees next) :
    List.Forall₂ (g.CanMake tokens input) phrases trees := by
  induction hd generalizing position trees with
  | nil =>
      cases h
      exact .nil
  | cons hp _ ih =>
      cases h with
      | cons h hs => exact .cons ⟨_, _, _, hp, h⟩ (ih hs)

/-- How a node makes a tree, by what the node is. -/
def MakesBy (g : Graph) (input : Input) (position : Nat) (t : Tree) (next : Nat) :
    GraphNode → Prop
  | .composite name ids =>
    ∃ i ∈ ids, ∃ t', Yields g input i position t' next ∧ input.builders.build name t' = .ok t
  | .sequence items => ∃ ts, YieldsAll g input items position ts next ∧ t = (Tree.list ts).flatten
  | .alternation i j => Yields g input i position t next ∨ Yields g input j position t next
  | .repetition i => ∃ further ts,
    YieldsAll g input (List.replicate (further + 1) i) position ts next ∧ t = (Tree.list ts).flatten
  | .literal text => ∃ a, input.tokens[position]? = some a ∧ a.text = text ∧ t = .token a
  | .terminal _ row =>
    ∃ a, input.tokens[position]? = some a ∧ row.any (·.accepts a.text) ∧ t = .token a

theorem Yields.makesBy {id position next : Nat} {t : Tree} {node : GraphNode}
    (h : Yields g input id position t next) (hn : g.nodes[id]? = some node) :
    MakesBy g input position t next node := by
  cases h with
  | rule hn' hi h hb =>
      obtain rfl := Option.some.inj (hn'.symm.trans hn)
      exact ⟨_, hi, _, h, hb⟩
  | sequence hn' h =>
      obtain rfl := Option.some.inj (hn'.symm.trans hn)
      exact ⟨_, h, rfl⟩
  | left hn' h =>
      obtain rfl := Option.some.inj (hn'.symm.trans hn)
      exact .inl h
  | right hn' h =>
      obtain rfl := Option.some.inj (hn'.symm.trans hn)
      exact .inr h
  | repetition further hn' h =>
      obtain rfl := Option.some.inj (hn'.symm.trans hn)
      exact ⟨further, _, h, rfl⟩
  | literal hn' ht htext =>
      obtain rfl := Option.some.inj (hn'.symm.trans hn)
      exact ⟨_, ht, htext, rfl⟩
  | terminal hn' ht hrow =>
      obtain rfl := Option.some.inj (hn'.symm.trans hn)
      exact ⟨_, ht, hrow, rfl⟩

theorem tries_of_yields (h : compile table tokens = .ok g) {rule i position next : Nat}
    {name : String} {ids : List Nat} {t : Tree}
    (hn : g.nodes[rule]? = some (.composite name ids)) (hi : i ∈ ids)
    (hy : Yields g input i position t next) : g.Tries table tokens input name t := by
  obtain ⟨parts, hm, phrases, items, hp, hs, hds, -⟩ :=
    exists_left_of_forall₂ (alternatives_of_composite h hn) i hi
  obtain ⟨trees, hts, rfl⟩ := hy.makesBy hs
  exact ⟨phrases, List.mem_map.2 ⟨parts, hm, hp⟩, trees, canMake_all hds hts, rfl⟩

/-- However far a machine has come that has begun with a node, the builder that it calls next is
called with a tree that an alternative of its rule makes. -/
theorem tries_of_call? (h : compile table tokens = .ok g) {id position : Nat} {r : Resolver}
    {count : Nat} {name : String} {t : Tree}
    (hc : ((Machine.step g input)^[count] ⟨.node id position, [], r⟩).call? = some (name, t)) :
    g.Tries table tokens input name t := by
  have makes : Machine.Makes g input ⟨.node id position, [], r⟩ := .node .nobody
  obtain ⟨rule, i, _, _, ids, hn, hi, hy⟩ := (Machine.makes_iterate makes count).of_call? hc
  exact tries_of_yields h hn hi hy

/-! Each phrase makes its own kind of tree. -/

section Phrases

variable {t : Tree}

theorem CanMake.rule (h : compile table tokens = .ok g) {name : String}
    (hm : g.CanMake tokens input (.rule name) t) :
    ∃ t', g.Tries table tokens input name t' ∧ input.builders.build name t' = .ok t := by
  obtain ⟨id, position, next, hd, hy⟩ := hm
  obtain ⟨ids, hn, -⟩ := compile_defines h hd
  obtain ⟨i, hi, t', hy, hb⟩ := hy.makesBy hn
  exact ⟨t', tries_of_yields h hn hi hy, hb⟩

theorem CanMake.terminal {name : String} (hm : g.CanMake tokens input (.terminal name) t) :
    ∃ a ∈ input.tokens, (tokens.row? name).any (·.accepts a.text) ∧ t = .token a := by
  obtain ⟨id, position, next, hd, hy⟩ := hm
  obtain ⟨a, ha, hrow, rfl⟩ := hy.makesBy hd
  exact ⟨a, Array.mem_of_getElem? ha, hrow, rfl⟩

theorem CanMake.literal {text : String} (hm : g.CanMake tokens input (.literal text) t) :
    ∃ a ∈ input.tokens, a.text = text ∧ t = .token a := by
  obtain ⟨id, position, next, hd, hy⟩ := hm
  obtain ⟨a, ha, htext, rfl⟩ := hy.makesBy hd
  exact ⟨a, Array.mem_of_getElem? ha, htext, rfl⟩

theorem CanMake.alternation {left right : Phrase}
    (hm : g.CanMake tokens input (.alternation left right) t) :
    g.CanMake tokens input left t ∨ g.CanMake tokens input right t := by
  obtain ⟨id, position, next, ⟨i, j, hn, -, -, hl, hr⟩, hy⟩ := hm
  rcases hy.makesBy hn with hy | hy
  · exact .inl ⟨i, position, next, hl, hy⟩
  · exact .inr ⟨j, position, next, hr, hy⟩

theorem canMake_replicate {body : Phrase} {i : Nat} (hd : g.Denotes tokens body i) (count : Nat)
    {position next : Nat} {trees : List Tree}
    (h : YieldsAll g input (List.replicate count i) position trees next) :
    trees.length = count ∧ ∀ t ∈ trees, g.CanMake tokens input body t := by
  induction count generalizing position trees with
  | zero =>
      cases h
      exact ⟨rfl, by simp⟩
  | succ count ih =>
      cases h with
      | cons h hs =>
          obtain ⟨hlen, hall⟩ := ih hs
          exact ⟨congrArg Nat.succ hlen, List.forall_mem_cons.2 ⟨⟨i, _, _, hd, h⟩, hall⟩⟩

theorem CanMake.oneOrMore {body : Phrase} (hm : g.CanMake tokens input (.oneOrMore body) t) :
    ∃ trees, trees ≠ [] ∧ (∀ t ∈ trees, g.CanMake tokens input body t) ∧
      t = (Tree.list trees).flatten := by
  obtain ⟨id, position, next, ⟨i, hn, -, hb⟩, hy⟩ := hm
  obtain ⟨further, trees, hts, rfl⟩ := hy.makesBy hn
  obtain ⟨hlen, hall⟩ := canMake_replicate hb _ hts
  refine ⟨trees, ?_, hall, rfl⟩
  rintro rfl
  cases hlen

end Phrases

end NodeScript.Graph
