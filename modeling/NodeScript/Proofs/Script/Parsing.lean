import NodeScript.Proofs.Grammar.DirectReading
import NodeScript.Proofs.Script.Statements
import NodeScript.Script.Parser

/-!
# What scripts mean

The shipped parser takes exactly the texts whose tokens are well-formed statements, and gives the
nodes that the blocks among them denote.
-/

namespace NodeScript

namespace ScriptParser

open Script Reading

/-- A parser made of the tables of scripts. -/
structure IsScript (p : ScriptParser) : Prop where
  tokens : p.tokens = .script
  compiled : Graph.compile .script .script = .ok p.graph
  builders : p.builders = .standard
  root : p.graph.rule? RuleTable.rootRule = some p.root

theorem isOk_compile_script (tokens : TokenTable) :
    (Graph.compile RuleTable.script tokens).isOk := by
  rfl

theorem contains_rootRule : RuleTable.script.contains RuleTable.rootRule := by
  decide

theorem ofTexts_eq_ok {source root : String} {grammars : List String} {builders : BuilderTable}
    {tokens : TokenTable} {rules : RuleTable} {graph : Graph} {id : Nat}
    (ht : TokenTable.read source = .ok tokens)
    (hl : layerTexts OrderedTable.empty grammars = .ok rules)
    (hg : Graph.compile rules tokens = .ok graph) (hid : graph.rule? root = some id) :
    ofTexts source grammars root builders = .ok ⟨tokens, graph, builders, id⟩ := by
  simp only [ofTexts, ht, hl, ofTables, hg, hid, Except.mapError]

theorem layerTexts_scriptText :
    layerTexts OrderedTable.empty [RuleTable.scriptText] = .ok .script := by
  rw [layerTexts, RuleTable.read_scriptText]
  simp only [layerTexts, RuleTable.layer_script]

/-- The shipped parser is made of the tables of scripts. -/
theorem shipped_isScript : ∃ p, shipped = .ok p ∧ p.IsScript := by
  match hg : Graph.compile RuleTable.script TokenTable.script with
  | .error e =>
      have := isOk_compile_script .script
      simp [hg, Except.isOk, Except.toBool] at this
  | .ok graph =>
      obtain ⟨id, hid⟩ := Graph.compile_rule? hg contains_rootRule
      exact ⟨⟨.script, graph, .standard, id⟩,
        ofTexts_eq_ok TokenTable.shipped_eq layerTexts_scriptText hg hid, rfl, hg, rfl, hid⟩

variable {p : ScriptParser}

/-- Tokens are resolved as the rules that the graph is made of read them. -/
theorem resolveTokensWithin_eq_ok_iff {table : RuleTable} {tokens : TokenTable} {root : String}
    (hg : Graph.compile table tokens = .ok p.graph) (hroot : p.graph.rule? root = some p.root)
    {ts : List Token} (hne : ts ≠ []) (limit : Nat) {t : Tree} :
    p.resolveTokensWithin limit ts.toArray = .ok t ↔
      table.descend tokens p.builders ts.length limit root ts = some (t, []) := by
  let input : Input := ⟨ts.toArray, p.builders⟩
  have hr : input.Remain 0 ts := ⟨[], rfl, rfl⟩
  have ha := Reading.agree_evaluate table tokens input limit root hr
  rw [← Graph.resolveWithin_gives hg input limit hroot 0 .empty] at ha
  have he : ts.toArray.isEmpty = false := by simpa using hne
  simp only [resolveTokensWithin, he, Bool.false_eq_true, if_false]
  change SameResult input (p.graph.resolveWithin input limit p.root 0 .empty).1
    (table.descend tokens p.builders ts.length limit root ts) at ha
  generalize p.graph.resolveWithin _ _ _ _ _ = out at ha ⊢
  generalize table.descend _ _ _ _ _ ts = taken at ha ⊢
  obtain ⟨out, d⟩ := out
  cases ha with
  | failure => simp
  | @success t' next rest hn =>
      obtain ⟨before, hb, rfl⟩ := hn
      have hb : ts = before ++ rest := hb
      have hsize : before.length = ts.length ↔ rest = [] := by simp [hb]
      by_cases hl : rest = []
      · simp [hsize, hl]
      · simp [hsize, hl]

/-- Tokens are resolved with the shipped limit as the rules read them. -/
theorem resolveTokens_eq_ok_iff {table : RuleTable} {tokens : TokenTable} {root : String}
    (hg : Graph.compile table tokens = .ok p.graph) (hroot : p.graph.rule? root = some p.root)
    {ts : List Token} (hne : ts ≠ []) {t : Tree} : p.resolveTokens ts.toArray = .ok t ↔
      table.descend tokens p.builders ts.length Graph.nestingLimit root ts = some (t, []) :=
  resolveTokensWithin_eq_ok_iff hg hroot hne Graph.nestingLimit

/-- Tokens are resolved as the rules of scripts read them. -/
theorem IsScript.resolveTokens_eq_ok_iff (h : p.IsScript) {ts : List Token} (hne : ts ≠ [])
    {t : Tree} : p.resolveTokens ts.toArray = .ok t ↔
      read ts.length Graph.nestingLimit RuleTable.rootRule ts = some (t, []) := by
  rw [ScriptParser.resolveTokens_eq_ok_iff h.compiled h.root hne, h.builders]

end ScriptParser

namespace Script

/-- A block denotes no more than one node. -/
theorem BlockText.Denotes.unique {bl : BlockText} {n n' : Node} (h : bl.Denotes n)
    (h' : bl.Denotes n') : n = n' := by
  obtain ⟨c, as, bd⟩ := n
  obtain ⟨c', as', bd'⟩ := n'
  obtain ⟨rfl, ha, rfl⟩ := h
  obtain ⟨rfl, ha', rfl⟩ := h'
  simp only at ha ha'
  rw [List.right_unique_forall₂' (fun k a a' h h' => Except.ok.inj (h.symm.trans h')) ha ha']

theorem denotes_unique : Relator.RightUnique BlockText.Denotes :=
  fun _ _ _ h h' => h.unique h'

theorem wellFormed_tokens_eq_nil {ss : List Statement} (h : WellFormed ss)
    (hn : tokensOf ss = []) : ss = [] := by
  cases ss with
  | nil => rfl
  | cons s ss => exact absurd (List.append_eq_nil_iff.1 hn).1 (statement_tokens_ne_nil h.1)

end Script

namespace ScriptParser

open Script

variable {p : ScriptParser}

/-- The nodes of tokens are those of the blocks in them. -/
theorem IsScript.nodes_eq_ok_iff (h : p.IsScript) (ts : List Token) (nodes : List Node) :
    (∃ t, p.resolveTokens ts.toArray = .ok t ∧ t.nodes = nodes) ↔
      ∃ statements, ts = tokensOf statements ∧ WellFormed statements ∧
        List.Forall₂ BlockText.Denotes (blocksOf statements) nodes := by
  by_cases hne : ts = []
  · subst hne
    have he : p.resolveTokens [].toArray = .ok (.list []) := rfl
    simp only [he, Except.ok.injEq, exists_eq_left']
    constructor
    · rintro rfl
      exact ⟨[], rfl, trivial, .nil⟩
    · rintro ⟨ss, hs, hw, hd⟩
      obtain rfl := wellFormed_tokens_eq_nil hw hs.symm
      cases hd
      rfl
  · simp only [h.resolveTokens_eq_ok_iff hne]
    constructor
    · rintro ⟨t, ht, rfl⟩
      exact main_sound ts.length 90 (Nat.le_refl _) ht
    · rintro ⟨ss, rfl, hw, hd⟩
      have hs : ss ≠ [] := fun hs => hne (by rw [hs]; rfl)
      obtain ⟨t, ht, hd'⟩ := main_complete _ 90 hs hw (Nat.le_refl _)
      exact ⟨t, ht, List.right_unique_forall₂' denotes_unique hd' hd⟩

/-- The nodes of a text are those of the tree of its tokens. -/
theorem parse_eq_ok_iff {text : String} {nodes : List Node} : p.parse text = .ok nodes ↔
    ∃ ts, p.tokenize text = .ok ts ∧ ∃ t, p.resolveTokens ts.toArray = .ok t ∧ t.nodes = nodes := by
  unfold parse resolve
  match p.tokenize text with
  | .error e => simp [Except.map]
  | .ok ts => cases hr : p.resolveTokens ts.toArray <;> simp [hr, Except.map, Except.mapError]

/-- A text is a script of some nodes when its tokens are well-formed statements and the blocks among
them denote the nodes. -/
theorem IsScript.parse_eq_ok_iff (h : p.IsScript) (text : String) (nodes : List Node) :
    p.parse text = .ok nodes ↔ ∃ statements, p.tokenize text = .ok (tokensOf statements) ∧
      WellFormed statements ∧ List.Forall₂ BlockText.Denotes (blocksOf statements) nodes := by
  simp only [ScriptParser.parse_eq_ok_iff, h.nodes_eq_ok_iff]
  constructor
  · rintro ⟨_, ht, ss, rfl, hss⟩
    exact ⟨ss, ht, hss⟩
  · rintro ⟨ss, ht, hss⟩
    exact ⟨_, ht, ss, rfl, hss⟩

/-- The shipped parser gives nodes for exactly the texts whose significant tokens are, without
remainder, well-formed statements, and then the nodes are those that the blocks among the statements
denote, in order. -/
theorem shipped_parse_eq_ok_iff : ∃ p, shipped = .ok p ∧ ∀ text nodes,
    p.parse text = .ok nodes ↔ ∃ statements, p.tokenize text = .ok (tokensOf statements) ∧
      WellFormed statements ∧ List.Forall₂ BlockText.Denotes (blocksOf statements) nodes := by
  obtain ⟨p, hp, hs⟩ := shipped_isScript
  exact ⟨p, hp, hs.parse_eq_ok_iff⟩

end ScriptParser

end NodeScript
