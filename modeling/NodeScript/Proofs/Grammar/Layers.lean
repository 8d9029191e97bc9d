import NodeScript.Grammar.Graph

/-!
# Layers of a graph

A compiled graph refers only to nodes that it has, and all its nodes but rules refer to nodes made
before them (`compile_isLayered`). So every cycle in it goes through a rule.
-/

namespace NodeScript

namespace GraphNode

/-- The nodes that a node refers to. -/
def children : GraphNode → List Nat
  | .composite _ alternatives => alternatives
  | .sequence items => items
  | .alternation left right => [left, right]
  | .repetition item => [item]
  | .literal _ => []
  | .terminal _ _ => []

def isRule : GraphNode → Bool
  | .composite _ _ => true
  | _ => false

end GraphNode

namespace Graph

/-- All nodes refer to nodes that are there, and those that are no rules to nodes before them. -/
structure IsLayered (nodes : Array GraphNode) : Prop where
  inside : ∀ {id : Nat} {node : GraphNode}, nodes[id]? = some node →
    ∀ child ∈ node.children, child < nodes.size
  before : ∀ {id : Nat} {node : GraphNode}, nodes[id]? = some node → node.isRule = false →
    ∀ child ∈ node.children, child < id

variable {nodes : Array GraphNode}

theorem IsLayered.empty : IsLayered #[] := by
  constructor <;> simp

/-- A node of an array with one more is that one or was there before. -/
theorem new_or_old_of_push {node n : GraphNode} {id : Nat} (h : (nodes.push node)[id]? = some n) :
    (id = nodes.size ∧ n = node) ∨ nodes[id]? = some n := by
  rw [Array.getElem?_push] at h
  split at h
  · exact .inl ⟨‹_›, (Option.some.inj h).symm⟩
  · exact .inr h

/-- A node of an array with one filled in is that one or was there before. -/
theorem new_or_old_of_fill {node n : GraphNode} {id i : Nat}
    (h : (nodes.setIfInBounds id node)[i]? = some n) : n = node ∨ nodes[i]? = some n := by
  rw [Array.getElem?_setIfInBounds] at h
  split at h
  · split at h
    · exact .inl (Option.some.inj h).symm
    · cases h
  · exact .inr h

theorem IsLayered.push (h : IsLayered nodes) {node : GraphNode}
    (hc : ∀ child ∈ node.children, child < nodes.size) : IsLayered (nodes.push node) := by
  constructor
  · intro id n hn child hm
    rw [Array.size_push]
    rcases new_or_old_of_push hn with ⟨-, rfl⟩ | hn
    · exact Nat.lt_succ_of_lt (hc child hm)
    · exact Nat.lt_succ_of_lt (h.inside hn child hm)
  · intro id n hn hr child hm
    rcases new_or_old_of_push hn with ⟨rfl, rfl⟩ | hn
    · exact hc child hm
    · exact h.before hn hr child hm

/-- Filling in the alternatives of a rule. -/
theorem IsLayered.fill (h : IsLayered nodes) (name : String) (id : Nat) {alternatives : List Nat}
    (hc : ∀ child ∈ alternatives, child < nodes.size) :
    IsLayered (nodes.setIfInBounds id (.composite name alternatives)) := by
  constructor
  · intro i n hn child hm
    rw [Array.size_setIfInBounds]
    rcases new_or_old_of_fill hn with rfl | hn
    · exact hc child hm
    · exact h.inside hn child hm
  · intro i n hn hr child hm
    rcases new_or_old_of_fill hn with rfl | hn
    · cases hr
    · exact h.before hn hr child hm

/-! ## Drafts -/

/-- The draft's nodes are layered, and its tables name nodes that are there. -/
structure Draft.IsLayered (d : Draft) : Prop where
  nodes : Graph.IsLayered d.nodes
  rules : ∀ {name id}, d.rules.lookup name = some id → id < d.nodes.size
  terminals : ∀ {name id}, d.terminals.lookup name = some id → id < d.nodes.size
  literals : ∀ {text id}, d.literals.lookup text = some id → id < d.nodes.size

/-- A step of compilation that keeps all nodes, and the layers. -/
structure Adds (d d' : Draft) : Prop where
  layered : d'.IsLayered
  size_le : d.nodes.size ≤ d'.nodes.size

variable {d d' d'' : Draft}

theorem Adds.refl (h : d.IsLayered) : Adds d d :=
  ⟨h, Nat.le_refl _⟩

theorem Adds.trans (h : Adds d d') (h' : Adds d' d'') : Adds d d'' :=
  ⟨h'.layered, Nat.le_trans h.size_le h'.size_le⟩

theorem Adds.all_lt (h : Adds d d') {ids : List Nat} (hi : ∀ i ∈ ids, i < d.nodes.size) :
    ∀ i ∈ ids, i < d'.nodes.size :=
  fun i hm => Nat.lt_of_lt_of_le (hi i hm) h.size_le

/-- The step adds to the draft, and gives a node that is there. -/
def AddsNode (d : Draft) (found : Nat × Draft) : Prop :=
  Adds d found.2 ∧ found.1 < found.2.nodes.size

theorem push_adds (h : d.IsLayered) (node : GraphNode)
    (hc : ∀ child ∈ node.children, child < d.nodes.size) : AddsNode d (d.push node) := by
  have grown : d.nodes.size < (d.push node).2.nodes.size := by simp [Draft.push]
  refine ⟨⟨⟨h.nodes.push hc, ?_, ?_, ?_⟩, Nat.le_of_lt grown⟩, grown⟩
  · exact fun hl => Nat.lt_trans (h.rules hl) grown
  · exact fun hl => Nat.lt_trans (h.terminals hl) grown
  · exact fun hl => Nat.lt_trans (h.literals hl) grown

/-- A table with one more entry names nodes that are there. -/
theorem lookup_cons_lt {size : Nat} (table : List (String × Nat))
    (h : ∀ {key i}, table.lookup key = some i → i < size) {key key' : String} {id i : Nat}
    (hid : id < size) (hl : ((key, id) :: table).lookup key' = some i) : i < size := by
  rw [List.lookup_cons] at hl
  split at hl
  · exact Option.some.inj hl ▸ hid
  · exact h hl

theorem terminal_adds (tokens : TokenTable) (name : String) (h : d.IsLayered) :
    AddsNode d (d.terminal tokens name) := by
  unfold Draft.terminal
  cases hl : d.terminals.lookup name with
  | some id => exact ⟨.refl h, h.terminals hl⟩
  | none =>
      obtain ⟨⟨layered, size_le⟩, hlt⟩ :=
        push_adds h (.terminal name (tokens.row? name)) (by simp [GraphNode.children])
      exact ⟨⟨⟨layered.nodes, layered.rules, lookup_cons_lt _ layered.terminals hlt,
        layered.literals⟩, size_le⟩, hlt⟩

theorem literal_adds (text : String) (h : d.IsLayered) : AddsNode d (d.literal text) := by
  unfold Draft.literal
  cases hl : d.literals.lookup text with
  | some id => exact ⟨.refl h, h.literals hl⟩
  | none =>
      obtain ⟨⟨layered, size_le⟩, hlt⟩ :=
        push_adds h (.literal text) (by simp [GraphNode.children])
      exact ⟨⟨⟨layered.nodes, layered.rules, layered.terminals,
        lookup_cons_lt _ layered.literals hlt⟩, size_le⟩, hlt⟩

theorem openRule_adds (name : String) (h : d.IsLayered) : AddsNode d (d.openRule name) := by
  obtain ⟨⟨layered, size_le⟩, hlt⟩ :=
    push_adds h (.composite name []) (by simp [GraphNode.children])
  refine ⟨⟨⟨layered.nodes, fun {name' id} hl => ?_, layered.terminals, layered.literals⟩, size_le⟩,
    hlt⟩
  have hl : (d.rules ++ [(name, d.nodes.size)]).lookup name' = some id := hl
  rw [List.lookup_append, Option.or_eq_some_iff] at hl
  rcases hl with hl | ⟨-, hl⟩
  · exact layered.rules hl
  · exact lookup_cons_lt [] (by simp) hlt hl

theorem closeRule_adds (name : String) (id : Nat) {ids : List Nat} (h : d.IsLayered)
    (hi : ∀ i ∈ ids, i < d.nodes.size) : Adds d (d.closeRule name id ids) := by
  have same : (d.closeRule name id ids).nodes.size = d.nodes.size := by simp [Draft.closeRule]
  refine ⟨⟨h.nodes.fill name id hi, ?_, ?_, ?_⟩, Nat.le_of_eq same.symm⟩
  · exact fun hl => same ▸ h.rules hl
  · exact fun hl => same ▸ h.terminals hl
  · exact fun hl => same ▸ h.literals hl

/-! ## Compilation -/

variable {table : RuleTable} {tokens : TokenTable} {rule : String → Compile Nat} {owner : String}

/-- Compiling a rule keeps the layers. -/
def KeepsLayers (rule : String → Compile Nat) : Prop :=
  ∀ ⦃name d found⦄, d.IsLayered → rule name d = .ok found → AddsNode d found

theorem symbol_adds (hr : KeepsLayers rule) (h : d.IsLayered) {name : String} {found : Nat × Draft}
    (hc : compileOperand table tokens rule (.symbol name) d = .ok found) : AddsNode d found := by
  simp only [compileOperand] at hc
  split at hc
  · exact hr h hc
  · exact Except.ok.inj hc ▸ terminal_adds tokens name h

/-- Compiling parts after items that are there keeps the layers. -/
def KeepsLayersOfParts (table : RuleTable) (tokens : TokenTable) (rule : String → Compile Nat)
    (owner : String) (parts : Alternative) : Prop :=
  ∀ ⦃items pending d found⦄, d.IsLayered → (∀ i ∈ items, i < d.nodes.size) →
    compileParts table tokens rule owner items pending parts d = .ok found → AddsNode d found

/-- Going on with the parts after a node that a step has given. -/
theorem KeepsLayersOfParts.after {parts : Alternative}
    (hp : KeepsLayersOfParts table tokens rule owner parts) {made found : Nat × Draft}
    {items : List Nat} (ha : AddsNode d made) (hi : ∀ i ∈ items, i < d.nodes.size)
    (hc : compileParts table tokens rule owner (made.1 :: items) false parts made.2 = .ok found) :
    AddsNode d found := by
  obtain ⟨added, hlt⟩ := ha
  obtain ⟨added', hlt'⟩ :=
    hp added.layered (List.forall_mem_cons.2 ⟨hlt, added.all_lt hi⟩) hc
  exact ⟨added.trans added', hlt'⟩

/-- Going on with the parts after an operand. -/
theorem KeepsLayersOfParts.attach {parts : Alternative}
    (hp : KeepsLayersOfParts table tokens rule owner parts) {made found : Nat × Draft}
    {items : List Nat} {pending : Bool} (ha : AddsNode d made)
    (hi : ∀ i ∈ items, i < d.nodes.size)
    (hc : (match pending, items with
      | true, left :: items =>
        let (id, d) := made.2.push (.alternation left made.1)
        compileParts table tokens rule owner (id :: items) false parts d
      | _, items => compileParts table tokens rule owner (made.1 :: items) false parts made.2) =
        .ok found) : AddsNode d found := by
  match pending, items, hi, hc with
  | false, _, hi, hc => exact hp.after ha hi hc
  | true, [], hi, hc => exact hp.after ha hi hc
  | true, left :: items, hi, hc =>
      obtain ⟨added, hlt⟩ := ha
      obtain ⟨hleft, hi⟩ := List.forall_mem_cons.1 (added.all_lt hi)
      obtain ⟨joined, hlt'⟩ := push_adds added.layered (.alternation left made.1)
        (by simp [GraphNode.children, hleft, hlt])
      obtain ⟨added', hfound⟩ := hp.after ⟨joined, hlt'⟩ hi hc
      exact ⟨added.trans added', hfound⟩

theorem compileParts_keepsLayers (hr : KeepsLayers rule) :
    ∀ parts, KeepsLayersOfParts table tokens rule owner parts
  | [] => by
      intro items pending d found h hi hc
      unfold compileParts at hc
      split at hc
      · cases hc
      · obtain rfl := Except.ok.inj hc
        exact push_adds h _ (by simpa [GraphNode.children] using hi)
  | .oneOrMore :: rest => by
      intro items pending d found h hi hc
      cases items with
      | nil => cases hc
      | cons item items =>
          obtain ⟨hitem, hi⟩ := List.forall_mem_cons.1 hi
          simp only [compileParts] at hc
          split at hc
          · cases hc
          · exact (compileParts_keepsLayers hr rest).after
              (push_adds h _ (by simpa [GraphNode.children] using hitem)) hi hc
  | .or :: rest => by
      intro items pending d found h hi hc
      unfold compileParts at hc
      split at hc
      · cases hc
      · exact compileParts_keepsLayers hr rest h hi hc
  | .symbol name :: rest => by
      intro items pending d found h hi hc
      simp only [compileParts] at hc
      split at hc
      · cases hc
      · rename_i id d₁ ho
        exact (compileParts_keepsLayers hr rest).attach (symbol_adds hr h ho) hi hc
  | .literal text :: rest => by
      intro items pending d found h hi hc
      simp only [compileParts, compileOperand] at hc
      exact (compileParts_keepsLayers hr rest).attach (literal_adds text h) hi hc

theorem compileAlternatives_adds (hr : KeepsLayers rule) : ∀ {alternatives d ids d'},
    d.IsLayered → compileAlternatives table tokens rule owner alternatives d = .ok (ids, d') →
    Adds d d' ∧ ∀ i ∈ ids, i < d'.nodes.size
  | [], d, ids, d', h, hc => by
      obtain ⟨rfl, rfl⟩ : [] = ids ∧ d = d' := by simpa [compileAlternatives] using hc
      exact ⟨.refl h, by simp⟩
  | parts :: rest, d, ids, d', h, hc => by
      simp only [compileAlternatives] at hc
      split at hc
      · cases hc
      · rename_i id d₁ hp
        split at hc
        · cases hc
        · rename_i others d₂ ha
          obtain ⟨rfl, rfl⟩ : id :: others = ids ∧ d₂ = d' := by simpa using hc
          obtain ⟨added, hlt⟩ := compileParts_keepsLayers hr parts h (by simp) hp
          obtain ⟨added', hlts⟩ := compileAlternatives_adds hr added.layered ha
          exact ⟨added.trans added', List.forall_mem_cons.2
            ⟨Nat.lt_of_lt_of_le hlt added'.size_le, hlts⟩⟩

theorem compileRule_keepsLayers (limit : Nat) : KeepsLayers (compileRule table tokens limit) := by
  induction limit with
  | zero =>
      intro name d found h hc
      unfold compileRule at hc
      split at hc
      · rename_i id hl
        exact Except.ok.inj hc ▸ ⟨.refl h, h.rules hl⟩
      · exact Except.ok.inj hc ▸ openRule_adds name h
  | succ limit ih =>
      intro name d found h hc
      unfold compileRule at hc
      split at hc
      · rename_i id hl
        exact Except.ok.inj hc ▸ ⟨.refl h, h.rules hl⟩
      · obtain ⟨opened, hlt⟩ := openRule_adds name h
        simp only at hc
        split at hc
        · cases hc
        · rename_i ids d₁ ha
          obtain rfl := Except.ok.inj hc
          obtain ⟨added, hlts⟩ := compileAlternatives_adds ih opened.layered ha
          have closed := closeRule_adds name (d.openRule name).1 added.layered hlts
          exact ⟨(opened.trans added).trans closed,
            Nat.lt_of_lt_of_le hlt (added.trans closed).size_le⟩

theorem compileRules_isLayered {limit : Nat} : ∀ {names d d'}, d.IsLayered →
    compileRules table tokens limit names d = .ok d' → d'.IsLayered
  | [], d, d', h, hc => by
      obtain rfl : d = d' := by simpa [compileRules] using hc
      exact h
  | name :: rest, d, d', h, hc => by
      simp only [compileRules] at hc
      split at hc
      · cases hc
      · rename_i id d₁ hr
        exact compileRules_isLayered (compileRule_keepsLayers limit h hr).1.layered hc

/-- The nodes of a compiled graph are layered. -/
theorem compile_isLayered {g : Graph} (h : compile table tokens = .ok g) : IsLayered g.nodes := by
  unfold compile at h
  split at h
  · cases h
  · rename_i d hd
    obtain rfl := Except.ok.inj h
    have empty : Draft.empty.IsLayered := by
      constructor <;> simp [Draft.empty, IsLayered.empty]
    exact (compileRules_isLayered empty hd).nodes

end Graph

end NodeScript
