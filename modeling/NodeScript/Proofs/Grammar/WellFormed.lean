import Mathlib.Data.List.Nodup
import Mathlib.Logic.Relation
import NodeScript.Proofs.Grammar.Layers
import NodeScript.Proofs.Grammar.Recursion

/-!
# Compiled graphs are well formed

Whatever is compiled, the draft changes by a few kinds of steps. Each of them keeps one node for a
terminal or a literal, however often it is named, and one entry for a rule, so that all of
compilation does.
-/

namespace NodeScript

namespace GraphNode

/-- Whether the node is made of others and is no rule. -/
def isJoin : GraphNode → Bool
  | .sequence _ => true
  | .alternation _ _ => true
  | .repetition _ => true
  | _ => false

end GraphNode

namespace Graph

variable {table : RuleTable} {tokens : TokenTable} {d d' : Draft}

/-! ## Steps -/

namespace Draft

/-- What compilation does to a draft. -/
inductive Step (table : RuleTable) (tokens : TokenTable) (d : Draft) : Draft → Prop
  | join {node : GraphNode} : node.isJoin = true → Step table tokens d (d.push node).2
  | terminal {name : String} : table.contains name = false →
    Step table tokens d (d.terminal tokens name).2
  | literal (text : String) : Step table tokens d (d.literal text).2
  | openRule {name : String} : d.rules.lookup name = none →
    Step table tokens d (d.openRule name).2
  | closeRule {name : String} {id : Nat} {others : List Nat} (ids : List Nat) :
    d.nodes[id]? = some (.composite name others) → Step table tokens d (d.closeRule name id ids)

def Steps (table : RuleTable) (tokens : TokenTable) : Draft → Draft → Prop :=
  Relation.ReflTransGen (Step table tokens)

/-- The node of a rule stays one of that rule. -/
theorem Step.composite (h : Step table tokens d d') {id : Nat} {name : String} {ids : List Nat}
    (hn : d.nodes[id]? = some (.composite name ids)) :
    ∃ ids', d'.nodes[id]? = some (.composite name ids') := by
  cases h with
  | @join node _ => exact ⟨ids, (push_extends d node).nodes hn⟩
  | @terminal other _ =>
      unfold Draft.terminal
      split
      · exact ⟨ids, hn⟩
      · exact ⟨ids, (push_extends d (.terminal other (tokens.row? other))).nodes hn⟩
  | literal text =>
      unfold Draft.literal
      split
      · exact ⟨ids, hn⟩
      · exact ⟨ids, (push_extends d (.literal text)).nodes hn⟩
  | @openRule other _ => exact ⟨ids, (openRule_extends other d).nodes hn⟩
  | @closeRule other i others ids' ho =>
      obtain ⟨hi, -⟩ := Array.getElem?_eq_some_iff.1 ho
      by_cases he : i = id
      · subst he
        obtain ⟨rfl, -⟩ : other = name ∧ others = ids := by simpa [ho] using hn
        exact ⟨ids', by simp [Draft.closeRule, hi]⟩
      · exact ⟨ids, by simpa [Draft.closeRule, he] using hn⟩

theorem Steps.composite (h : Steps table tokens d d') {id : Nat} {name : String} {ids : List Nat}
    (hn : d.nodes[id]? = some (.composite name ids)) :
    ∃ ids', d'.nodes[id]? = some (.composite name ids') := by
  induction h with
  | refl => exact ⟨ids, hn⟩
  | tail _ hs ih =>
      obtain ⟨ids', hn'⟩ := ih
      exact hs.composite hn'

theorem attach_steps (items : List Nat) (pending : Bool) (id : Nat) (d : Draft) :
    Steps table tokens d (d.attach items pending id).2 := by
  cases pending with
  | false => exact .refl
  | true =>
      cases items with
      | nil => exact .refl
      | cons left items => exact .single (.join rfl)

end Draft

open Draft (Step Steps)

mutual

theorem RuleRun.steps : ∀ {name : String} {d : Draft} {out : Except GrammarError (Nat × Draft)},
    RuleRun table tokens name d out → ∀ found, out = .ok found → Steps table tokens d found.2
  | _, _, _, .known _ => by
      rintro _ ⟨⟩
      exact .refl
  | name, d, _, .closed hn ha => by
      rintro _ ⟨⟩
      have opened : Steps table tokens (d.openRule name).2 _ := ha.steps _ rfl
      -- whatever its alternatives have added, the node to fill in is still this rule's
      obtain ⟨others, ho⟩ := opened.composite (openRule_node name d)
      exact .head (.openRule hn) (opened.tail (.closeRule _ ho))
  | _, _, _, .stopped _ _ => by rintro _ ⟨⟩

theorem AlternativesRun.steps : ∀ {owner : String} {alternatives : List Alternative} {d : Draft}
    {out : Except GrammarError (List Nat × Draft)},
    AlternativesRun table tokens owner alternatives d out →
    ∀ found, out = .ok found → Steps table tokens d found.2
  | _, _, _, _, .nil => by
      rintro _ ⟨⟩
      exact .refl
  | _, _, _, _, .cons hp ha => by
      rintro _ ⟨⟩
      have rest := ha.steps _ rfl
      exact (hp.steps _ rfl).trans rest
  | _, _, _, _, .stopped _ => by rintro _ ⟨⟩
  | _, _, _, _, .later _ _ => by rintro _ ⟨⟩

theorem PartsRun.steps : ∀ {owner : String} {items : List Nat} {pending : Bool}
    {parts : Alternative} {d : Draft} {out : Except GrammarError (Nat × Draft)},
    PartsRun table tokens owner items pending parts d out →
    ∀ found, out = .ok found → Steps table tokens d found.2
  | _, _, _, _, _, _, .done => by
      rintro _ ⟨⟩
      exact .single (.join rfl)
  | _, _, _, _, _, _, .oneOrMore hp => fun _ ho => .head (.join rfl) (hp.steps _ ho)
  | _, _, _, _, _, _, .or hp => fun _ ho => hp.steps _ ho
  | _, _, _, _, _, _, .operand hd hp => fun _ ho =>
      (hd.steps _ rfl).trans ((Draft.attach_steps _ _ _ _).trans (hp.steps _ ho))
  | _, _, _, _, _, _, .unjoined => by rintro _ ⟨⟩
  | _, _, _, _, _, _, .unrepeated _ => by rintro _ ⟨⟩
  | _, _, _, _, _, _, .unaligned _ => by rintro _ ⟨⟩
  | _, _, _, _, _, _, .stopped _ => by rintro _ ⟨⟩

theorem OperandRun.steps : ∀ {part : Part} {d : Draft} {out : Except GrammarError (Nat × Draft)},
    OperandRun table tokens part d out → ∀ found, out = .ok found → Steps table tokens d found.2
  | _, _, _, .literal => by
      rintro _ ⟨⟩
      exact .single (.literal _)
  | _, _, _, .terminal hc => by
      rintro _ ⟨⟩
      exact .single (.terminal hc)
  | _, _, _, .rule _ hr => fun _ ho => hr.steps _ ho

end

theorem RulesRun.steps {names : List String} {out : Except GrammarError Draft}
    (h : RulesRun table tokens names d out) (ho : out = .ok d') : Steps table tokens d d' := by
  induction h with
  | nil =>
      obtain rfl := Except.ok.inj ho
      exact .refl
  | stopped => cases ho
  | cons hr _ ih => exact (hr.steps _ rfl).trans (ih ho)

theorem compile_steps {g : Graph} (h : compile table tokens = .ok g) :
    ∃ d : Draft, d.graph = g ∧ Steps table tokens .empty d := by
  obtain ⟨made, hm, hg⟩ := compileRun_iff.2 h.symm
  cases made with
  | error e => cases hg
  | ok d => exact ⟨d, (Except.ok.inj hg).symm, hm.steps rfl⟩

/-! ## Sharing -/

namespace Draft

/-- The draft's tables find every terminal and every literal that there is, no terminal bears the
name of a rule, and no rule is named twice. -/
structure Shared (table : RuleTable) (d : Draft) : Prop where
  terminals : ∀ {id : Nat} {name : String} {row : Option TokenRow},
    d.nodes[id]? = some (.terminal name row) →
    d.terminals.lookup name = some id ∧ table.contains name = false
  literals : ∀ {id : Nat} {text : String}, d.nodes[id]? = some (.literal text) →
    d.literals.lookup text = some id
  rules : (d.rules.map Prod.fst).Nodup

theorem Shared.empty : Shared table .empty := by
  constructor <;> simp [Draft.empty]

theorem lookup_cons_of_none {entries : List (String × Nat)} {key key' : String} {i : Nat} (id : Nat)
    (hn : entries.lookup key = none) (h : entries.lookup key' = some i) :
    ((key, id) :: entries).lookup key' = some i := by
  rw [List.lookup_cons]
  split
  · rename_i he
    obtain rfl := eq_of_beq he
    cases hn.symm.trans h
  · exact h

theorem Shared.terminal (h : d.Shared table) {name : String} (hc : table.contains name = false) :
    (d.terminal tokens name).2.Shared table := by
  unfold Draft.terminal
  cases hl : d.terminals.lookup name with
  | some id => exact h
  | none =>
      refine ⟨fun {id other row} hn => ?_, fun {id text} hn => ?_, h.rules⟩
      · rcases new_or_old_of_push hn with ⟨rfl, he⟩ | hn
        · obtain ⟨rfl, -⟩ := GraphNode.terminal.inj he
          exact ⟨List.lookup_cons_self, hc⟩
        · obtain ⟨hid, hother⟩ := h.terminals hn
          exact ⟨lookup_cons_of_none _ hl hid, hother⟩
      · rcases new_or_old_of_push hn with ⟨-, he⟩ | hn
        · cases he
        · exact h.literals hn

theorem Shared.literal (h : d.Shared table) (text : String) :
    (d.literal text).2.Shared table := by
  unfold Draft.literal
  cases hl : d.literals.lookup text with
  | some id => exact h
  | none =>
      refine ⟨fun {id name row} hn => ?_, fun {id other} hn => ?_, h.rules⟩
      · rcases new_or_old_of_push hn with ⟨-, he⟩ | hn
        · cases he
        · exact h.terminals hn
      · rcases new_or_old_of_push hn with ⟨rfl, he⟩ | hn
        · obtain rfl := GraphNode.literal.inj he
          exact List.lookup_cons_self
        · exact lookup_cons_of_none _ hl (h.literals hn)

/-- A node that is no leaf leaves the leaves as they are. -/
theorem Shared.push (h : d.Shared table) {node : GraphNode}
    (ht : ∀ name row, node ≠ .terminal name row) (hl : ∀ text, node ≠ .literal text) :
    (d.push node).2.Shared table := by
  refine ⟨fun {id name row} hn => ?_, fun {id text} hn => ?_, h.rules⟩
  · rcases new_or_old_of_push hn with ⟨-, he⟩ | hn
    · exact absurd he.symm (ht name row)
    · exact h.terminals hn
  · rcases new_or_old_of_push hn with ⟨-, he⟩ | hn
    · exact absurd he.symm (hl text)
    · exact h.literals hn

theorem Shared.openRule (h : d.Shared table) {name : String}
    (hn : d.rules.lookup name = none) : (d.openRule name).2.Shared table := by
  have pushed : (d.push (.composite name [])).2.Shared table :=
    h.push (fun _ _ => GraphNode.noConfusion) (fun _ => GraphNode.noConfusion)
  refine ⟨pushed.terminals, pushed.literals, ?_⟩
  have fresh : name ∉ d.rules.map Prod.fst := by
    intro hm
    obtain ⟨entry, he, rfl⟩ := List.mem_map.1 hm
    simpa using List.lookup_eq_none_iff.1 hn entry he
  have named := List.Nodup.concat fresh h.rules
  simpa only [Draft.openRule, Draft.push, List.map_append, List.map_cons, List.map_nil,
    List.concat_eq_append] using named

theorem Shared.closeRule (h : d.Shared table) (name : String) (id : Nat) (ids : List Nat) :
    (d.closeRule name id ids).Shared table := by
  refine ⟨fun {i other row} hn => ?_, fun {i text} hn => ?_, h.rules⟩
  · rcases new_or_old_of_fill hn with he | hn
    · cases he
    · exact h.terminals hn
  · rcases new_or_old_of_fill hn with he | hn
    · cases he
    · exact h.literals hn

theorem Shared.step (h : d.Shared table) (hs : Step table tokens d d') : d'.Shared table := by
  cases hs with
  | join hj =>
      refine h.push (fun name row he => ?_) (fun text he => ?_)
      · subst he
        cases hj
      · subst he
        cases hj
  | terminal hc => exact h.terminal hc
  | literal text => exact h.literal text
  | openRule hn => exact h.openRule hn
  | closeRule ids _ => exact h.closeRule _ _ ids

theorem Shared.steps (h : d.Shared table) (hs : Steps table tokens d d') : d'.Shared table := by
  induction hs with
  | refl => exact h
  | tail _ hs ih => exact ih.step hs

end Draft

/-! ## Graphs -/

/-- The second node is a part of the first, which is no rule. -/
def HasPart (g : Graph) (id i : Nat) : Prop :=
  ∃ node, g.nodes[id]? = some node ∧ node.isRule = false ∧ i ∈ node.children

/-- What may be relied on in the graph of a table. -/
structure IsWellFormed (g : Graph) (table : RuleTable) (tokens : TokenTable) : Prop where
  child_lt : ∀ {id : Nat} {node : GraphNode}, g.nodes[id]? = some node →
    ∀ i ∈ node.children, i < g.nodes.size
  rule_lt : ∀ {name : String} {id : Nat}, g.rule? name = some id → id < g.nodes.size
  nodup_names : (g.rules.map Prod.fst).Nodup
  mem_names_iff : ∀ name, name ∈ g.rules.map Prod.fst ↔ table.contains name = true
  /-- The node of a rule is the only one that bears its name. -/
  rule?_eq_some_iff : ∀ name id,
    g.rule? name = some id ↔ ∃ ids, g.nodes[id]? = some (.composite name ids)
  /-- There is a node for each of a rule's alternatives, in their order, which stands for it. -/
  alternatives : ∀ {id : Nat} {name : String} {ids : List Nat},
    g.nodes[id]? = some (.composite name ids) →
    ∃ alternatives, table.get? name = some alternatives ∧
      List.Forall₂ (g.DenotesParts table tokens) alternatives ids
  sequences : ∀ {id : Nat} {name : String} {ids : List Nat},
    g.nodes[id]? = some (.composite name ids) →
    ∀ i ∈ ids, ∃ items, g.nodes[i]? = some (.sequence items)
  terminal_unique : ∀ {i j : Nat} {name : String} {row row' : Option TokenRow},
    g.nodes[i]? = some (.terminal name row) → g.nodes[j]? = some (.terminal name row') → i = j
  terminal_not_rule : ∀ {id : Nat} {name : String} {row : Option TokenRow},
    g.nodes[id]? = some (.terminal name row) → table.contains name = false
  literal_unique : ∀ {i j : Nat} {text : String},
    g.nodes[i]? = some (.literal text) → g.nodes[j]? = some (.literal text) → i = j
  part_lt : ∀ {id i : Nat}, g.HasPart id i → i < id
  /-- Every way back to a node goes through a rule. -/
  no_cycle : ∀ id, ¬Relation.TransGen g.HasPart id id

theorem part_lt_of_transGen {g : Graph} (hl : IsLayered g.nodes) {id i : Nat}
    (h : Relation.TransGen g.HasPart id i) : i < id := by
  induction h with
  | single hp =>
      obtain ⟨node, hn, hr, hm⟩ := hp
      exact hl.before hn hr _ hm
  | tail _ hp ih =>
      obtain ⟨node, hn, hr, hm⟩ := hp
      exact Nat.lt_trans (hl.before hn hr _ hm) ih

theorem mem_names_iff_of_compile {g : Graph} (h : compile table tokens = .ok g) (name : String) :
    name ∈ g.rules.map Prod.fst ↔ table.contains name = true := by
  constructor
  · intro hm
    obtain ⟨entry, he, rfl⟩ := List.mem_map.1 hm
    have found : (g.rule? entry.1).isSome :=
      List.lookup_isSome_iff.2 ⟨entry, he, beq_self_eq_true _⟩
    obtain ⟨id, hid⟩ := Option.isSome_iff_exists.1 found
    exact contains_of_rule? h hid
  · intro hc
    obtain ⟨id, hid⟩ := compile_rule? h hc
    obtain ⟨before, after, he, -⟩ := List.lookup_eq_some_iff.1 hid
    simp [he]

theorem isWellFormed_of_compile {g : Graph} (h : compile table tokens = .ok g) :
    g.IsWellFormed table tokens := by
  obtain ⟨d, rfl, hs⟩ := compile_steps h
  have shared : d.Shared table := Draft.Shared.empty.steps hs
  have layered := compile_isLayered h
  constructor
  case child_lt => exact layered.inside
  case rule_lt => exact rule?_lt_size h
  case nodup_names => exact shared.rules
  case mem_names_iff => exact mem_names_iff_of_compile h
  case rule?_eq_some_iff =>
    intro name id
    constructor
    · intro hid
      obtain ⟨ids, hn, -⟩ := compile_defines h hid
      exact ⟨ids, hn⟩
    · rintro ⟨ids, hn⟩
      exact compile_composites h hn
  case alternatives =>
    intro id name ids hn
    obtain ⟨alternatives, ha⟩ :=
      Option.isSome_iff_exists.1 (contains_of_rule? h (compile_composites h hn))
    have hds := alternatives_of_composite h hn
    rw [ha] at hds
    exact ⟨alternatives, ha, hds⟩
  case sequences =>
    intro id name ids hn i hi
    obtain ⟨parts, -, phrases, items, -, hi, -⟩ :=
      exists_left_of_forall₂ (alternatives_of_composite h hn) i hi
    exact ⟨items, hi⟩
  case terminal_unique =>
    intro i j name row row' hi hj
    obtain ⟨hi, -⟩ := shared.terminals hi
    obtain ⟨hj, -⟩ := shared.terminals hj
    exact Option.some.inj (hi.symm.trans hj)
  case terminal_not_rule =>
    intro id name row hn
    exact (shared.terminals hn).2
  case literal_unique =>
    intro i j text hi hj
    exact Option.some.inj ((shared.literals hi).symm.trans (shared.literals hj))
  case part_lt =>
    intro id i hp
    exact part_lt_of_transGen layered (.single hp)
  case no_cycle =>
    intro id hc
    exact Nat.lt_irrefl id (part_lt_of_transGen layered hc)

/-- Compilation ends on all tables, with one outcome, and the graph that it may give is well
formed. -/
theorem compile_wellFormed (table : RuleTable) (tokens : TokenTable) :
    (∀ out, CompileRun table tokens out ↔ out = compile table tokens) ∧
      ∀ g, compile table tokens = .ok g → g.IsWellFormed table tokens :=
  ⟨fun _ => compileRun_iff, fun _ => isWellFormed_of_compile⟩

/-- Words in any number of parentheses. -/
def parens : RuleTable :=
  ⟨[("item", [[.literal "(", .symbol "item", .or, .symbol "WORD", .oneOrMore, .literal ")"],
    [.literal "(", .literal ")"]])]⟩

/-- The compiled parentheses. -/
def parensGraph : Graph :=
  ⟨#[.composite "item" [6, 7], .literal "(", .terminal "WORD" none, .alternation 0 2,
    .repetition 3, .literal ")", .sequence [1, 4, 5], .sequence [1, 5]], [("item", 0)]⟩

theorem compile_wellFormed_parens : compile parens ⟨[]⟩ = .ok parensGraph ∧
    CompileRun parens ⟨[]⟩ (.ok parensGraph) ∧ parensGraph.IsWellFormed parens ⟨[]⟩ := by
  have compiles : compile parens ⟨[]⟩ = .ok parensGraph := rfl
  obtain ⟨ends, wellFormed⟩ := compile_wellFormed parens ⟨[]⟩
  exact ⟨compiles, (ends _).2 compiles.symm, wellFormed _ compiles⟩

end Graph

end NodeScript
