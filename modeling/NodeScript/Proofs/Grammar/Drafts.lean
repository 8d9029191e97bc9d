import Mathlib.Data.List.Forall2
import NodeScript.Proofs.Grammar.Evaluator

/-!
# What the nodes of a graph stand for

A node stands for a phrase when the graph below it, read down to the rules it names, spells that
phrase. Compilation only adds nodes and rules, so what a node stands for stays as it is; the one
change in place, filling in a rule's alternatives, touches no node below which a phrase is read.
-/

namespace NodeScript

theorem exists_left_of_forall₂ {α β : Type} {R : α → β → Prop} {as : List α} {bs : List β}
    (h : List.Forall₂ R as bs) : ∀ b ∈ bs, ∃ a ∈ as, R a b := by
  induction h with
  | nil => simp
  | @cons a b as bs hr _ ih =>
      refine List.forall_mem_cons.2 ⟨⟨a, List.mem_cons_self .., hr⟩, fun b hb => ?_⟩
      obtain ⟨a, ha, hr⟩ := ih b hb
      exact ⟨a, List.mem_cons_of_mem _ ha, hr⟩

namespace Graph

/-- The node stands for the phrase. The nodes below it have smaller numbers. -/
def Denotes (g : Graph) (tokens : TokenTable) : Phrase → Nat → Prop
  | .rule name, id => g.rule? name = some id
  | .terminal name, id => g.nodes[id]? = some (.terminal name (tokens.row? name))
  | .literal text, id => g.nodes[id]? = some (.literal text)
  | .alternation left right, id =>
    ∃ i j, g.nodes[id]? = some (.alternation i j) ∧ i < id ∧ j < id ∧
      g.Denotes tokens left i ∧ g.Denotes tokens right j
  | .oneOrMore body, id =>
    ∃ i, g.nodes[id]? = some (.repetition i) ∧ i < id ∧ g.Denotes tokens body i

/-- The node is the sequence of an alternative's phrases. -/
def DenotesParts (g : Graph) (table : RuleTable) (tokens : TokenTable) (parts : Alternative)
    (id : Nat) : Prop :=
  ∃ phrases ids, table.phrases? parts = some phrases ∧ g.nodes[id]? = some (.sequence ids) ∧
    List.Forall₂ (g.Denotes tokens) phrases ids ∧ ∀ i ∈ ids, i < id

/-- The node is a rule with the alternatives that the table gives it. -/
def Defines (g : Graph) (table : RuleTable) (tokens : TokenTable) (name : String) (id : Nat) :
    Prop :=
  ∃ ids, g.nodes[id]? = some (.composite name ids) ∧
    List.Forall₂ (g.DenotesParts table tokens) ((table.get? name).getD []) ids

/-- The later graph has the earlier one's rules and all its nodes but rules, unchanged. -/
structure Keeps (g g' : Graph) : Prop where
  nodes : ∀ {id : Nat} {node : GraphNode}, g.nodes[id]? = some node →
    (∀ name ids, node ≠ .composite name ids) → g'.nodes[id]? = some node
  rules : ∀ {name id}, g.rule? name = some id → g'.rule? name = some id

/-- The later graph has all of the earlier one, unchanged. -/
structure Extends (g g' : Graph) : Prop where
  nodes : ∀ {id : Nat} {node : GraphNode}, g.nodes[id]? = some node → g'.nodes[id]? = some node
  rules : ∀ {name id}, g.rule? name = some id → g'.rule? name = some id

variable {g g' g'' : Graph} {table : RuleTable} {tokens : TokenTable}

theorem Extends.refl (g : Graph) : Extends g g :=
  ⟨id, id⟩

theorem Extends.trans (h : Extends g g') (h' : Extends g' g'') : Extends g g'' :=
  ⟨h'.nodes ∘ h.nodes, h'.rules ∘ h.rules⟩

theorem Extends.keeps (h : Extends g g') : Keeps g g' :=
  ⟨fun hn _ => h.nodes hn, h.rules⟩

theorem Denotes.keep (h : Keeps g g') : ∀ {p : Phrase} {id : Nat}, g.Denotes tokens p id →
    g'.Denotes tokens p id
  | .rule _, _, hp => h.rules hp
  | .terminal _, _, hp => h.nodes hp (by simp)
  | .literal _, _, hp => h.nodes hp (by simp)
  | .alternation _ _, _, ⟨i, j, hn, hi, hj, hl, hr⟩ =>
      ⟨i, j, h.nodes hn (by simp), hi, hj, hl.keep h, hr.keep h⟩
  | .oneOrMore _, _, ⟨i, hn, hi, hb⟩ => ⟨i, h.nodes hn (by simp), hi, hb.keep h⟩

theorem DenotesParts.keep (h : Keeps g g') {parts : Alternative} {id : Nat}
    (hp : g.DenotesParts table tokens parts id) : g'.DenotesParts table tokens parts id := by
  obtain ⟨phrases, ids, hs, hn, hd, hi⟩ := hp
  exact ⟨phrases, ids, hs, h.nodes hn (by simp), hd.imp fun _ _ hp => hp.keep h, hi⟩

/-- A rule whose node is kept too stays defined. -/
theorem Defines.keep (h : Keeps g g') {name : String} {id : Nat}
    (hd : g.Defines table tokens name id) (hid : g'.nodes[id]? = g.nodes[id]?) :
    g'.Defines table tokens name id := by
  obtain ⟨ids, hn, hs⟩ := hd
  exact ⟨ids, hid ▸ hn, hs.imp fun _ _ hp => hp.keep h⟩

theorem Defines.extend (h : Extends g g') {name : String} {id : Nat}
    (hd : g.Defines table tokens name id) : g'.Defines table tokens name id := by
  obtain ⟨ids, hn, hs⟩ := hd
  exact ⟨ids, h.nodes hn, hs.imp fun _ _ hp => hp.keep h.keeps⟩

end Graph

namespace Graph.Draft

/-- The draft as a graph. -/
def graph (d : Draft) : Graph :=
  ⟨d.nodes, d.rules⟩

/-- The draft's tables name nodes of the right kind, and every rule's node is named. -/
structure Sound (tokens : TokenTable) (d : Draft) : Prop where
  terminals : ∀ {name id}, d.terminals.lookup name = some id →
    d.graph.Denotes tokens (.terminal name) id
  literals : ∀ {text id}, d.literals.lookup text = some id →
    d.graph.Denotes tokens (.literal text) id
  rules : ∀ {name : String} {id : Nat}, d.graph.rule? name = some id →
    ∃ ids, d.nodes[id]? = some (.composite name ids)
  composites : ∀ {id : Nat} {name : String} {ids : List Nat},
    d.nodes[id]? = some (.composite name ids) → d.graph.rule? name = some id

/-- The later draft has all of the earlier one, and the rules that are new in it are rules of the
table and finished. -/
structure Grows (table : RuleTable) (tokens : TokenTable) (d d' : Draft) : Prop where
  keep : Extends d.graph d'.graph
  sound : d'.Sound tokens
  contains : ∀ {name id}, d.graph.rule? name = none → d'.graph.rule? name = some id →
    table.contains name
  defines : ∀ {name id}, d.graph.rule? name = none → d'.graph.rule? name = some id →
    d'.graph.Defines table tokens name id

variable {table : RuleTable} {tokens : TokenTable} {d d' d'' : Draft}

theorem Sound.empty : Sound tokens empty := by
  constructor <;> simp [Draft.empty, graph, Graph.rule?]

theorem Grows.refl (h : d.Sound tokens) : Grows table tokens d d :=
  ⟨Extends.refl _, h, fun hn hs => by simp [hn] at hs, fun hn hs => by simp [hn] at hs⟩

theorem Grows.trans (h : Grows table tokens d d') (h' : Grows table tokens d' d'') :
    Grows table tokens d d'' := by
  refine ⟨h.keep.trans h'.keep, h'.sound, fun {name id} hn hs => ?_, fun {name id} hn hs => ?_⟩
  · cases hm : d'.graph.rule? name with
    | none => exact h'.contains hm hs
    | some i => exact h.contains hn hm
  cases hm : d'.graph.rule? name with
  | none => exact h'.defines hm hs
  | some i =>
      obtain rfl : i = id := by simpa [h'.keep.rules hm] using hs
      exact (h.defines hn hm).extend h'.keep

/-- What a draft's nodes stand for has a number below the count of its nodes. -/
theorem Sound.lt_size (h : d.Sound tokens) {p : Phrase} {id : Nat}
    (hp : d.graph.Denotes tokens p id) : id < d.nodes.size := by
  have known {node} (hn : d.graph.nodes[id]? = some node) : id < d.nodes.size :=
    (Array.getElem?_eq_some_iff.1 hn).1
  cases p with
  | rule name =>
      obtain ⟨ids, hn⟩ := h.rules hp
      exact known hn
  | terminal name => exact known hp
  | literal text => exact known hp
  | alternation left right =>
      obtain ⟨i, j, hn, _⟩ := hp
      exact known hn
  | oneOrMore body =>
      obtain ⟨i, hn, _⟩ := hp
      exact known hn

theorem push_node (d : Draft) (node : GraphNode) :
    (d.push node).2.graph.nodes[(d.push node).1]? = some node := by
  simp [push, graph]

theorem push_extends (d : Draft) (node : GraphNode) : Extends d.graph (d.push node).2.graph := by
  refine ⟨fun {id n} hn => ?_, id⟩
  have hi : id < d.nodes.size := (Array.getElem?_eq_some_iff.1 hn).1
  simpa [push, graph, Array.getElem?_push, Nat.ne_of_lt hi] using hn

theorem Sound.push (h : d.Sound tokens) (node : GraphNode)
    (hc : ∀ name ids, node ≠ .composite name ids) : (d.push node).2.Sound tokens where
  terminals hl := (h.terminals hl).keep (push_extends d node).keeps
  literals hl := (h.literals hl).keep (push_extends d node).keeps
  rules hl := (h.rules hl).imp fun _ => (push_extends d node).nodes
  composites {id name ids} hn := by
    simp only [Draft.push, Array.getElem?_push] at hn
    split at hn
    · exact absurd (Option.some.inj hn) (hc name ids)
    · exact h.composites hn

theorem push_grows (table : RuleTable) (h : d.Sound tokens) (node : GraphNode)
    (hc : ∀ name ids, node ≠ .composite name ids) : Grows table tokens d (d.push node).2 :=
  ⟨push_extends d node, h.push node hc, fun hn hs => (nomatch hn.symm.trans hs),
    fun hn hs => (nomatch hn.symm.trans hs)⟩

theorem terminal_grows (h : d.Sound tokens) (name : String) :
    Grows table tokens d (d.terminal tokens name).2 ∧
      (d.terminal tokens name).2.graph.Denotes tokens (.terminal name)
        (d.terminal tokens name).1 := by
  unfold Draft.terminal
  cases hl : d.terminals.lookup name with
  | some id => exact ⟨Grows.refl h, h.terminals hl⟩
  | none =>
      have hg := push_grows table h (.terminal name (tokens.row? name)) (by simp)
      have hn := push_node d (.terminal name (tokens.row? name))
      refine ⟨⟨hg.keep, ⟨fun {name' id} hs => ?_, hg.sound.literals, hg.sound.rules,
        hg.sound.composites⟩, hg.contains, hg.defines⟩, hn⟩
      by_cases he : name' = name
      · subst he
        obtain rfl : _ = id := by simpa using hs
        exact hn
      · exact hg.sound.terminals (by simpa [List.lookup_cons, beq_false_of_ne he] using hs)

theorem literal_grows (table : RuleTable) (h : d.Sound tokens) (text : String) :
    Grows table tokens d (d.literal text).2 ∧
      (d.literal text).2.graph.Denotes tokens (.literal text) (d.literal text).1 := by
  unfold Draft.literal
  cases hl : d.literals.lookup text with
  | some id => exact ⟨Grows.refl h, h.literals hl⟩
  | none =>
      have hg := push_grows table h (.literal text) (by simp)
      have hn := push_node d (.literal text)
      refine ⟨⟨hg.keep, ⟨hg.sound.terminals, fun {text' id} hs => ?_, hg.sound.rules,
        hg.sound.composites⟩, hg.contains, hg.defines⟩, hn⟩
      by_cases he : text' = text
      · subst he
        obtain rfl : _ = id := by simpa using hs
        exact hn
      · exact hg.sound.literals (by simpa [List.lookup_cons, beq_false_of_ne he] using hs)

end Graph.Draft

end NodeScript
