import Mathlib.Logic.Relation
import NodeScript.Proofs.Grammar.DirectReading
import NodeScript.Proofs.Grammar.Nonrecursive
import NodeScript.Script.Parser

/-!
# Matching does not depend on how nodes are numbered

The order of the rules in a table, and rules that are never used, decide which numbers the nodes of
the compiled graph have, and which literals and terminals they share. Two nodes that stand for one
phrase are matched alike all the same, failures and diagnostics included, so that parsers whose
tables agree on what the root reaches answer alike.
-/

namespace NodeScript

/-- Two lists that are paired with a third. -/
theorem map_eq_map_of_forall₂ {α β γ δ : Type} {R : α → β → Prop} {S : α → γ → Prop} {f : β → δ}
    {f' : γ → δ} {as : List α} {bs : List β} {cs : List γ} (hr : List.Forall₂ R as bs)
    (hs : List.Forall₂ S as cs)
    (h : ∀ a ∈ as, ∀ b ∈ bs, ∀ c ∈ cs, R a b → S a c → f' c = f b) : cs.map f' = bs.map f := by
  induction hr generalizing cs with
  | nil =>
      cases hs
      rfl
  | cons hab _ ih =>
      cases hs with
      | cons hac hs =>
          rw [List.map_cons, List.map_cons, h _ (.head _) _ (.head _) _ (.head _) hab hac,
            ih hs fun a ha b hb c hc => h a (.tail _ ha) b (.tail _ hb) c (.tail _ hc)]

namespace RuleTable

/-- The names of the symbols in the alternatives of a rule. -/
def mentioned (table : RuleTable) (name : String) : List String :=
  ((table.get? name).getD []).flatMap (·.filterMap symbol?)

/-- A name leads to another through symbols of alternatives. -/
def Reaches (table : RuleTable) : String → String → Prop :=
  Relation.ReflTransGen fun name other => other ∈ table.mentioned name

/-- What the name reaches has the same alternatives in both tables, or is a rule in neither. -/
def AgreeFrom (table table' : RuleTable) (name : String) : Prop :=
  ∀ other, table.Reaches name other → table'.get? other = table.get? other

variable {table table' : RuleTable}

theorem mem_mentioned {name other : String} {parts : Alternative}
    (hm : parts ∈ (table.get? name).getD []) (hs : Part.symbol other ∈ parts) :
    other ∈ table.mentioned name :=
  List.mem_flatMap.2 ⟨parts, hm, List.mem_filterMap.2 ⟨_, hs, rfl⟩⟩

theorem AgreeFrom.get?_eq {name : String} (h : table.AgreeFrom table' name) :
    table'.get? name = table.get? name :=
  h name .refl

theorem AgreeFrom.contains_eq {name : String} (h : table.AgreeFrom table' name) :
    table'.contains name = table.contains name := by
  rw [OrderedTable.contains, OrderedTable.contains, h.get?_eq]

theorem AgreeFrom.of_mentioned {name other : String} (h : table.AgreeFrom table' name)
    (hm : other ∈ table.mentioned name) : table.AgreeFrom table' other :=
  fun _ hr => h _ (.head hm hr)

/-- Names that mention only one another reach nothing else. -/
theorem agreeFrom_of_closed (names : List String)
    (hc : ∀ name ∈ names, ∀ other ∈ table.mentioned name, other ∈ names)
    (h : ∀ name ∈ names, table'.get? name = table.get? name) {name : String}
    (hn : name ∈ names) : table.AgreeFrom table' name := by
  intro other hr
  have hother : other ∈ names := by
    induction hr with
    | refl => exact hn
    | tail _ hm ih => exact hc _ ih _ hm
  exact h other hother

theorem phrasesFrom?_congr {parts : Alternative}
    (h : ∀ name, Part.symbol name ∈ parts → table'.contains name = table.contains name)
    (phrases : List Phrase) (pending : Bool) :
    table'.phrasesFrom? phrases pending parts = table.phrasesFrom? phrases pending parts := by
  induction parts generalizing phrases pending with
  | nil => rfl
  | cons part rest ih =>
      have ih := ih fun name hm => h name (List.mem_cons_of_mem _ hm)
      cases part with
      | symbol name =>
          have same := h name List.mem_cons_self
          simp only [phrasesFrom?, symbolPhrase, same, ih]
      | literal text => simp only [phrasesFrom?, ih]
      | or => simp only [phrasesFrom?, ih]
      | oneOrMore => cases phrases <;> simp only [phrasesFrom?, ih]

theorem AgreeFrom.phrases?_eq {name : String} (h : table.AgreeFrom table' name)
    {parts : Alternative} (hm : parts ∈ (table.get? name).getD []) :
    table'.phrases? parts = table.phrases? parts :=
  phrasesFrom?_congr (fun _ hs => (h.of_mentioned (mem_mentioned hm hs)).contains_eq) [] false

/-- The tables agree on what the rules of a rule's phrases reach. -/
theorem AgreeFrom.of_phrases? {name other : String} (h : table.AgreeFrom table' name)
    {parts : Alternative} (hm : parts ∈ (table.get? name).getD []) {phrases : List Phrase}
    (hp : table.phrases? parts = some phrases) {p : Phrase} (hmem : p ∈ phrases)
    (ho : other ∈ p.rules) : table.AgreeFrom table' other := by
  obtain ⟨-, hs⟩ := symbol_of_phrases? hp hmem ho
  exact h.of_mentioned (mem_mentioned hm hs)

end RuleTable

namespace Graph

variable {g g' : Graph} {table table' : RuleTable} {tokens : TokenTable} {input : Input}
  {enter enter' : String → List Nat → Match}

/-- Entering the rule of a name is the same by its node in one graph and by that in the other. -/
def EnterAlike (g g' : Graph) (enter enter' : String → List Nat → Match) (name : String) : Prop :=
  ∀ ⦃id id' : Nat⦄ ⦃ids ids' : List Nat⦄, g.nodes[id]? = some (.composite name ids) →
    g'.nodes[id']? = some (.composite name ids') → enter' name ids' = enter name ids

section Bisimulation

variable (h : compile table tokens = .ok g) (h' : compile table' tokens = .ok g')
include h h'

theorem walk_congr_of_denotes : ∀ {p : Phrase} {limit limit' id id' : Nat},
    g.Denotes tokens p id → g'.Denotes tokens p id' → id < limit → id' < limit' →
    (∀ name ∈ p.rules, EnterAlike g g' enter enter' name) →
    g'.walk input enter' limit' id' = g.walk input enter limit id
  | .rule name, _ + 1, _ + 1, _, _, hd, hd', _, _, he => by
      obtain ⟨ids, hn, -⟩ := compile_defines h hd
      obtain ⟨ids', hn', -⟩ := compile_defines h' hd'
      simp only [walk, hn, hn']
      exact he name (List.mem_singleton_self name) hn hn'
  | .terminal name, _ + 1, _ + 1, id, id', hd, hd', _, _, _ => by
      have hn : g.nodes[id]? = some (.terminal name (tokens.row? name)) := hd
      have hn' : g'.nodes[id']? = some (.terminal name (tokens.row? name)) := hd'
      simp only [walk, hn, hn']
  | .literal text, _ + 1, _ + 1, id, id', hd, hd', _, _, _ => by
      have hn : g.nodes[id]? = some (.literal text) := hd
      have hn' : g'.nodes[id']? = some (.literal text) := hd'
      simp only [walk, hn, hn']
  | .alternation _ _, limit + 1, limit' + 1, _, _, ⟨i, j, hn, hi, hj, hl, hr⟩,
      ⟨i', j', hn', hi', hj', hl', hr'⟩, _, _, he => by
      obtain ⟨hel, her⟩ := List.forall_mem_append.1 he
      have left : g'.walk input enter' limit' i' = g.walk input enter limit i :=
        walk_congr_of_denotes hl hl' (by omega) (by omega) hel
      have right : g'.walk input enter' limit' j' = g.walk input enter limit j :=
        walk_congr_of_denotes hr hr' (by omega) (by omega) her
      simp only [walk, hn, hn', left, right]
  | .oneOrMore _, limit + 1, limit' + 1, _, _, ⟨i, hn, hi, hb⟩, ⟨i', hn', hi', hb'⟩, _, _, he => by
      have body : g'.walk input enter' limit' i' = g.walk input enter limit i :=
        walk_congr_of_denotes hb hb' (by omega) (by omega) he
      simp only [walk, hn, hn', body]

theorem walk_congr_of_denotesParts {parts : Alternative} {id id' : Nat}
    (hd : g.DenotesParts table tokens parts id) (hd' : g'.DenotesParts table' tokens parts id')
    (hp : table'.phrases? parts = table.phrases? parts)
    (he : ∀ phrases, table.phrases? parts = some phrases → ∀ p ∈ phrases, ∀ name ∈ p.rules,
      EnterAlike g g' enter enter' name) :
    g'.walk input enter' g'.nodes.size id' = g.walk input enter g.nodes.size id := by
  obtain ⟨phrases, ids, hs, hn, hds, hlt⟩ := hd
  obtain ⟨phrases', ids', hs', hn', hds', hlt'⟩ := hd'
  obtain rfl : phrases = phrases' := by simpa [hp, hs] using hs'
  have hid : id < g.nodes.size := (Array.getElem?_eq_some_iff.1 hn).1
  have hid' : id' < g'.nodes.size := (Array.getElem?_eq_some_iff.1 hn').1
  obtain ⟨limit, hl⟩ := Nat.exists_eq_add_one_of_ne_zero (Nat.ne_zero_of_lt hid)
  obtain ⟨limit', hl'⟩ := Nat.exists_eq_add_one_of_ne_zero (Nat.ne_zero_of_lt hid')
  simp only [hl, hl', walk, hn, hn']
  -- the items are paired by the phrases that they stand for
  refine congrArg (Match.sequence []) (map_eq_map_of_forall₂ hds hds' ?_)
  intro p hm i hi i' hi' hp hp'
  have below := hlt i hi
  have below' := hlt' i' hi'
  exact walk_congr_of_denotes h h' hp hp' (by omega) (by omega) (he phrases hs p hm)

/-- Rules are entered alike where the tables agree on what they reach. -/
theorem enterRule_alike (input : Input) (budget : Nat) {name : String}
    (ha : table.AgreeFrom table' name) :
    EnterAlike g g' (g.enterRule input budget) (g'.enterRule input budget) name := by
  induction budget generalizing name with
  | zero => exact fun _ _ _ _ _ _ => rfl
  | succ budget ih =>
      intro id id' ids ids' hn hn'
      have hds := alternatives_of_composite h hn
      have hds' := alternatives_of_composite h' hn'
      rw [ha.get?_eq] at hds'
      refine congrArg (Match.rule input name) (map_eq_map_of_forall₂ hds hds' ?_)
      intro parts hm i _ i' _ hp hp'
      rw [resolveWithin_eq_walk, resolveWithin_eq_walk]
      refine walk_congr_of_denotesParts h h' hp hp' (ha.phrases?_eq hm) ?_
      exact fun phrases hs p hmem other ho => ih (ha.of_phrases? hm hs hmem ho)

/-- The nodes of a rule in both graphs are matched alike, whatever has been recorded. -/
theorem resolveWithin_congr (input : Input) (budget : Nat) {name : String} {id id' : Nat}
    (ha : table.AgreeFrom table' name) (hid : g.rule? name = some id)
    (hid' : g'.rule? name = some id') :
    g'.resolveWithin input budget id' = g.resolveWithin input budget id := by
  have hlt : id < g.nodes.size := rule?_lt_size h hid
  have hlt' : id' < g'.nodes.size := rule?_lt_size h' hid'
  have node : g.Denotes tokens (.rule name) id := hid
  have node' : g'.Denotes tokens (.rule name) id' := hid'
  rw [resolveWithin_eq_walk, resolveWithin_eq_walk]
  refine walk_congr_of_denotes h h' node node' hlt hlt' fun other ho => ?_
  obtain rfl := List.mem_singleton.1 ho
  exact enterRule_alike h h' input budget ha

end Bisimulation

end Graph

namespace ScriptParser

open NodeScript.Graph (compile nests)

variable {rules rules' : RuleTable} {tokens : TokenTable} {g g' : Graph}

theorem ofTables_eq_ok (h : compile rules tokens = .ok g) {root : String} {id : Nat}
    (hid : g.rule? root = some id) (builders : BuilderTable) :
    ofTables tokens rules root builders = .ok ⟨tokens, g, builders, id⟩ := by
  simp only [ofTables, h, hid]

/-- Neither the order of rules nor rules that the root does not reach make a difference: two tables
that agree on what the root reaches give parsers that answer every text with the same tree or the
same error, its trace included. -/
theorem parsers_agree (h : compile rules tokens = .ok g) (h' : compile rules' tokens = .ok g')
    {root : String} (hr : rules.contains root) (ha : rules.AgreeFrom rules' root)
    (builders : BuilderTable) :
    ∃ p p', ofTables tokens rules root builders = .ok p ∧
      ofTables tokens rules' root builders = .ok p' ∧
      ∀ text, p'.resolve text = p.resolve text := by
  have hr' : rules'.contains root := ha.contains_eq.trans hr
  obtain ⟨id, hid⟩ := Graph.compile_rule? h hr
  obtain ⟨id', hid'⟩ := Graph.compile_rule? h' hr'
  refine ⟨_, _, ofTables_eq_ok h hid builders, ofTables_eq_ok h' hid' builders, fun text => ?_⟩
  have same (input : Input) : g'.resolveWithin input Graph.nestingLimit id' =
      g.resolveWithin input Graph.nestingLimit id :=
    Graph.resolveWithin_congr h h' input _ ha hid hid'
  simp only [resolve, tokenize, resolveTokens, resolveTokensWithin, same]

/-- Nests laid over themselves, with one more rule before them. -/
def nestsAgain : RuleTable :=
  nests.layer ⟨[("pair", [[.literal "x", .symbol "leaf"]]),
    ("nest", (nests.get? "nest").getD [])]⟩

theorem parsers_agree_nests : ∃ g g', compile nests .script = .ok g ∧
    compile nestsAgain .script = .ok g' ∧ g.rule? "nest" = some 0 ∧ g'.rule? "nest" = some 7 ∧
    nests.contains "nest" ∧ nests.AgreeFrom nestsAgain "nest" ∧
    ∀ builders, ∃ p p', ofTables .script nests "nest" builders = .ok p ∧
      ofTables .script nestsAgain "nest" builders = .ok p' ∧
      ∀ text, p'.resolve text = p.resolve text := by
  have contains : nests.contains "nest" := by decide
  have agree : nests.AgreeFrom nestsAgain "nest" :=
    RuleTable.agreeFrom_of_closed ["nest", "leaf", "INT"] (by decide) (by decide) (by decide)
  have root : (compile nests .script).toOption.bind (·.rule? "nest") = some 0 := by decide
  have root' : (compile nestsAgain .script).toOption.bind (·.rule? "nest") = some 7 := by decide
  match h : compile nests .script, h' : compile nestsAgain .script with
  | .error e, _ => simp [h, Except.toOption] at root
  | .ok g, .error e => simp [h', Except.toOption] at root'
  | .ok g, .ok g' =>
      rw [h] at root
      rw [h'] at root'
      exact ⟨g, g', rfl, rfl, root, root', contains, agree, parsers_agree h h' contains agree⟩

end ScriptParser

end NodeScript
