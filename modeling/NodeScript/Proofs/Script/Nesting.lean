import NodeScript.Proofs.Grammar.Widening
import NodeScript.Proofs.Script.Accepted

/-!
# Nested blocks extend scripts

The grammar with nested blocks laid over that of scripts takes the same scripts and more, and those
it takes in addition have a knob whose value is a block. Up to knobs a rule of the extension reads
what the rule of scripts reads, or it reads a block where the other reads nothing.
-/

namespace NodeScript

namespace RuleTable

open NodeScript.Part

/-- The rules of nested blocks. -/
def roto : RuleTable := ⟨[
  ("knob_value", [[symbol "animated_value"], [symbol "multi_value"], [symbol "block"],
    [symbol "scalar"]]),
  ("block", [
    [literal "\x7b", symbol "block_item", oneOrMore, literal "\x7d"],
    [literal "\x7b", literal "\x7d"]]),
  ("block_item", [[symbol "block", or, symbol "scalar"]])]⟩

/-- The shipped text of the extension holds the rules of nested blocks. -/
theorem read_rotoText : read rotoText = .ok roto := by
  apply eq_ok_of_entries
  have h : ∀ l ∈ rotoLines, '\n' ∉ l.toList ∧ l.toList.getLast? ≠ some '\r' := by decide
  rw [read, rotoText, Text.lines_unlines h]
  decide

/-- The rules of scripts with nested blocks. -/
def nested : RuleTable :=
  script.layer roto

/-- The rules of scripts that refer to no value that could be a block. -/
def sharedRules : List String :=
  ["scalar", "number", "keyframe", "curve", "animated_value", "multi_value", "tcl_command"]

theorem references_shared : ∀ name ∈ sharedRules, ∀ other ∈ script.references name,
    other ∈ sharedRules := by
  decide

theorem phrasesOf_nested_knobValue : nested.phrasesOf "knob_value" =
    [some [.rule "animated_value"], some [.rule "multi_value"], some [.rule "block"],
      some [.rule "scalar"]] := by
  decide

theorem phrasesOf_nested_block : nested.phrasesOf "block" =
    [some [.literal "\x7b", .oneOrMore (.rule "block_item"), .literal "\x7d"],
      some [.literal "\x7b", .literal "\x7d"]] := by
  decide

/-- The rules of scripts other than that for the values of knobs. -/
def rulesBesideValues : List String :=
  ["knob", "knobs", "node", "statement", "main"] ++ sharedRules

/-- The table has the rules of scripts, those for the values of knobs apart. -/
def KeepsRules (table : RuleTable) : Prop :=
  ∀ name ∈ rulesBesideValues, table.phrasesOf name = script.phrasesOf name

theorem keepsRules_script : script.KeepsRules :=
  fun _ _ => rfl

theorem keepsRules_nested : nested.KeepsRules := by
  unfold KeepsRules
  decide

end RuleTable

namespace Script

open Descent (Widens)
open RuleTable (descend_succ descend_single descendPhrases)

/-- Reads a rule of scripts with nested blocks. -/
abbrev readNested (limit budget : Nat) (name : String) : Descent :=
  RuleTable.nested.descend TokenTable.script .standard limit budget name

/-! ## Scripts by what reads the values of knobs -/

section Forms

/-- A word and what reads its value make a knob. -/
def knobForm (value : Descent) : Descent :=
  .rule .standard "knob" [.sequence [.one isWord, value]]

variable (limit : Nat) (value : Descent)

def knobsForm : Descent :=
  .sequence [.oneOrMore limit (knobForm value)]

def anyNodeForm : Descent :=
  .rule .standard "node" [
    nodeForm [knobsForm limit value] [read limit 1 "tcl_command"],
    nodeForm [knobsForm limit value] [], nodeForm [] [read limit 1 "tcl_command"], nodeForm [] []]

def statementForm : Descent :=
  .sequence [.alternation (anyNodeForm limit value) (read limit 1 "tcl_command")]

def scriptForm : Descent :=
  .sequence [.oneOrMore limit (statementForm limit value)]

/-- A value is a curve, channels, what `block` reads, or a scalar. -/
def valueForm (block : Descent) : Descent := fun ts =>
  [Descent.sequence [read limit 4 "animated_value"], .sequence [read limit 2 "multi_value"],
    .sequence [block], .sequence [.one isScalar]].findSome? (· ts)

end Forms

variable (limit b : Nat)

theorem read_animatedValue_deeper :
    read limit (b + 4) "animated_value" = read limit 4 "animated_value" := by
  simp only [read_animatedValue limit b, read_animatedValue limit 0, read_curve limit b,
    read_curve limit 0, read_keyframe limit b, read_keyframe limit 0]

theorem read_multiValue_deeper :
    read limit (b + 2) "multi_value" = read limit 2 "multi_value" := by
  rw [read_multiValue limit b, read_multiValue limit 0]

theorem read_command_deeper : read limit (b + 1) "tcl_command" = read limit 1 "tcl_command" := by
  funext ts
  rw [read_command limit b, read_command limit 0]

section Tables

variable {table : RuleTable} (h : table.KeepsRules)
include h

theorem descend_shared (name : String) (hn : name ∈ RuleTable.sharedRules) :
    table.descend TokenTable.script .standard limit b name = read limit b name :=
  RuleTable.descend_congr (fun name hn => h name (List.mem_append_right _ hn))
    RuleTable.references_shared b name hn

theorem descend_knob : table.descend TokenTable.script .standard limit (b + 6) "knob" =
    knobForm (table.descend TokenTable.script .standard limit (b + 5) "knob_value") := by
  rw [descend_succ, h "knob" (by decide), RuleTable.phrasesOf_knob]
  rfl

theorem descend_knobs : table.descend TokenTable.script .standard limit (b + 7) "knobs" =
    knobsForm limit (table.descend TokenTable.script .standard limit (b + 5) "knob_value") := by
  rw [descend_single ((h "knobs" (by decide)).trans RuleTable.phrasesOf_knobs) (by decide),
    knobsForm, ← descend_knob limit b h]
  rfl

theorem descend_node : table.descend TokenTable.script .standard limit (b + 8) "node" =
    anyNodeForm limit (table.descend TokenTable.script .standard limit (b + 5) "knob_value") := by
  rw [descend_succ, h "node" (by decide), RuleTable.phrasesOf_node, anyNodeForm,
    ← descend_knobs limit b h, ← read_command_deeper limit (b + 6),
    ← descend_shared limit (b + 7) h "tcl_command" (by decide)]
  rfl

theorem descend_statement : table.descend TokenTable.script .standard limit (b + 9) "statement" =
    statementForm limit
      (table.descend TokenTable.script .standard limit (b + 5) "knob_value") := by
  rw [descend_single ((h "statement" (by decide)).trans RuleTable.phrasesOf_statement) (by decide),
    statementForm, ← descend_node limit b h, ← read_command_deeper limit (b + 7),
    ← descend_shared limit (b + 8) h "tcl_command" (by decide)]
  rfl

/-- Tables that differ in the values of knobs only read scripts alike but for these. -/
theorem descend_main : table.descend TokenTable.script .standard limit (b + 10) "main" =
    scriptForm limit
      (table.descend TokenTable.script .standard limit (b + 5) "knob_value") := by
  rw [descend_single ((h "main" (by decide)).trans RuleTable.phrasesOf_main) (by decide),
    scriptForm, ← descend_statement limit b h]
  rfl

end Tables

theorem read_value : read limit (b + 5) "knob_value" = valueForm limit fun _ => none := by
  funext ts
  rw [read_knobValue, valueForm, read_animatedValue_deeper, read_multiValue_deeper limit (b + 2)]
  simp only [List.findSome?_cons, List.findSome?_nil, Descent.sequence, Descent.all,
    Option.map_none]

theorem readNested_value :
    readNested limit (b + 5) "knob_value" = valueForm limit (readNested limit (b + 4) "block") := by
  funext ts
  rw [readNested, descend_succ, RuleTable.phrasesOf_nested_knobValue,
    Descent.rule_eq_findSome? (by decide), valueForm, ← read_scalar limit (b + 3),
    ← read_animatedValue_deeper limit b, ← read_multiValue_deeper limit (b + 2),
    ← descend_shared limit (b + 4) RuleTable.keepsRules_nested "scalar" (by decide),
    ← descend_shared limit (b + 4) RuleTable.keepsRules_nested "animated_value" (by decide),
    ← descend_shared limit (b + 4) RuleTable.keepsRules_nested "multi_value" (by decide)]
  rfl

/-- Scripts with nested blocks have blocks among their values. -/
theorem readNested_main : readNested limit (b + 10) "main" =
    scriptForm limit (valueForm limit (readNested limit (b + 4) "block")) := by
  rw [readNested, descend_main limit b RuleTable.keepsRules_nested, ← readNested_value]

theorem read_main_eq : read limit (b + 10) "main" =
    scriptForm limit (valueForm limit fun _ => none) := by
  rw [read, descend_main limit b RuleTable.keepsRules_script, ← read_value]

/-! ## Values and knobs -/

/-- The tokens begin with an opening brace. -/
def BeginsWithBrace (ts : List Token) : Prop :=
  ∃ o rest, ts = o :: rest ∧ o.text = "\x7b"

/-- The tree is a list and stays one. -/
def IsListed (t : Tree) : Prop :=
  ∃ items, t = .list items ∧ t.flatten = t

theorem readNested_block {ts rest : List Token} {t : Tree}
    (h : readNested limit b "block" ts = some (t, rest)) : BeginsWithBrace ts ∧ IsListed t := by
  cases b with
  | zero => cases h
  | succ b =>
      rw [readNested, descend_succ, RuleTable.phrasesOf_nested_block,
        Descent.rule_eq_findSome? (by decide)] at h
      obtain ⟨f, hf, h⟩ := List.exists_of_findSome?_eq_some h
      simp only [List.map_cons, List.map_nil, List.mem_cons, List.not_mem_nil, or_false] at hf
      rcases hf with rfl | rfl
      all_goals
        simp only [descendPhrases, List.map_cons, List.map_nil, Phrase.descend,
          Descent.sequence_eq_some, Descent.all_cons_eq_some, Descent.all_nil_eq_some,
          Descent.one_eq_some, beq_iff_eq] at h
      · obtain ⟨_, ⟨_, mid, _, ⟨o, rfl, ho, rfl⟩, ⟨_, _, _, -, ⟨_, _, _, -, ⟨rfl, -⟩, rfl⟩, rfl⟩,
          rfl⟩, rfl⟩ := h
        exact ⟨⟨o, mid, rfl, ho⟩, _, rfl, rfl⟩
      · obtain ⟨_, ⟨_, mid, _, ⟨o, rfl, ho, rfl⟩, ⟨_, _, _, -, ⟨rfl, -⟩, rfl⟩, rfl⟩, rfl⟩ := h
        exact ⟨⟨o, mid, rfl, ho⟩, _, rfl, rfl⟩

/-- No scalar begins with a brace, so what reads more blocks takes nothing from the scalars. -/
theorem widens_valueForm {block block' : Descent}
    (h : Widens block block' BeginsWithBrace IsListed) :
    Widens (valueForm limit block) (valueForm limit block') (fun _ => True)
      fun t => ∃ items, t = .list items := by
  intro ts
  simp only [valueForm, List.findSome?_cons, List.findSome?_nil, sequence_singleton]
  match read limit 4 "animated_value" ts, read limit 2 "multi_value" ts with
  | some _, _ => exact .inl rfl
  | none, some _ => exact .inl rfl
  | none, none =>
      rcases h ts with he | ⟨hnone, ⟨o, mid, rfl, ho⟩, t, rest, hb, items, rfl, hflat⟩
      · exact .inl (by rw [he])
      · have hscalar : Descent.one isScalar (o :: mid) = none := by
          simp [Descent.one, isScalar_mark (t := o) (by simp [ho, marks])]
        refine .inr ⟨by simp [hnone, hscalar], trivial, _, rest, ?_, items, hflat⟩
        simp only [hb]
        rfl

/-- The tokens begin with a word. -/
def BeginsWithWord (ts : List Token) : Prop :=
  ∃ t rest, ts = t :: rest ∧ isWord t

theorem not_beginsWithWord {t : Token} (h : t.text ∈ marks) (rest : List Token) :
    ¬BeginsWithWord (t :: rest) := by
  rintro ⟨_, _, he, hw⟩
  obtain ⟨rfl, -⟩ := List.cons.inj he
  rw [isWord_mark h] at hw
  cases hw

/-- One of the knobs has a block as its value. -/
def HoldsBlock (as : List Attribute) : Prop :=
  ∃ a ∈ as, ∃ text, a.value = .block text

theorem knobForm_eq_some {value : Descent} {ts rest : List Token} {t : Tree} :
    knobForm value ts = some (t, rest) ↔ ∃ n mid v, ts = n :: mid ∧ isWord n ∧
      value mid = some (v, rest) ∧ Builder.buildAttribute (.list [.token n, v]) = .ok t := by
  simp only [knobForm, Descent.rule_cons_eq_some, Descent.rule_nil, Descent.sequence_eq_some,
    Descent.all_cons_eq_some, Descent.all_nil_eq_some, Descent.one_eq_some, build_knob,
    reduceCtorEq, and_false, or_false]
  constructor
  · rintro ⟨_, ⟨_, ⟨_, _, _, ⟨n, rfl, hn, rfl⟩, ⟨v, _, _, hv, ⟨rfl, rfl⟩, rfl⟩, rfl⟩, rfl⟩, hb⟩
    exact ⟨n, _, v, rfl, hn, hv, hb⟩
  · rintro ⟨n, mid, v, rfl, hn, hv, hb⟩
    exact ⟨_, ⟨_, ⟨_, _, _, ⟨n, rfl, hn, rfl⟩, ⟨v, _, _, hv, ⟨rfl, rfl⟩, rfl⟩, rfl⟩, rfl⟩, hb⟩

theorem knobForm_cons {value : Descent} {n : Token} {mid : List Token} (hn : isWord n) :
    knobForm value (n :: mid) = (value mid).bind fun (v, rest) =>
      (Builder.buildAttribute (.list [.token n, v])).toOption.map (·, rest) := by
  simp only [knobForm, Descent.rule, Descent.sequence, Descent.all, Descent.one, hn, if_true]
  cases value mid with
  | none => rfl
  | some taken =>
      obtain ⟨v, rest⟩ := taken
      simp only [Option.map_some, Tree.flatten, build_knob, Option.bind_some]
      cases Builder.buildAttribute (.list [.token n, v]) <;> rfl

theorem knobForm_eq_none {value : Descent} {ts : List Token} (h : ¬BeginsWithWord ts) :
    knobForm value ts = none := by
  match hk : knobForm value ts with
  | none => rfl
  | some (t, rest) =>
      obtain ⟨n, mid, _, rfl, hn, _⟩ := knobForm_eq_some.1 hk
      exact absurd ⟨n, mid, rfl, hn⟩ h

theorem buildAttribute_eq_ok {n : Token} {v t : Tree}
    (h : Builder.buildAttribute (.list [.token n, v]) = .ok t) : ∃ a, t = .attribute a := by
  simp only [Builder.buildAttribute, Tree.items] at h
  cases hv : Builder.valueOf v <;> simp only [hv, Except.map, reduceCtorEq, Except.ok.injEq] at h
  exact ⟨_, h.symm⟩

theorem knobForm_sound {value : Descent} {ts rest : List Token} {t : Tree}
    (h : knobForm value ts = some (t, rest)) : BeginsWithWord ts ∧ ∃ a, t = .attribute a := by
  obtain ⟨n, mid, v, rfl, hn, -, hb⟩ := knobForm_eq_some.1 h
  exact ⟨⟨n, mid, rfl, hn⟩, buildAttribute_eq_ok hb⟩

theorem exists_attributes {trees : List Tree} (h : ∀ t ∈ trees, ∃ a, t = .attribute a) :
    ∃ as : List Attribute, trees = as.map .attribute := by
  induction trees with
  | nil => exact ⟨[], rfl⟩
  | cons t trees ih =>
      obtain ⟨⟨a, rfl⟩, hrest⟩ := List.forall_mem_cons.1 h
      obtain ⟨as, rfl⟩ := ih hrest
      exact ⟨a :: as, rfl⟩

/-! ## Nodes and statements -/

theorem nodeForm_congr {knobs knobs' : Descent} {command : List Descent} {ts : List Token}
    (h : knobs' ts.tail.tail = knobs ts.tail.tail) :
    nodeForm [knobs'] command ts = nodeForm [knobs] command ts := by
  have hall {c o : Token} {mid : List Token} (hts : ts = c :: o :: mid) :
      Descent.all [knobs'] mid = Descent.all [knobs] mid := by
    subst hts
    simp only [Descent.all, show knobs' mid = knobs mid from h]
  refine Option.ext fun taken => ?_
  obtain ⟨t, rest⟩ := taken
  rw [nodeForm_eq_some, nodeForm_eq_some]
  constructor
  · rintro ⟨c, o, cl, ks, cs, mid, mid', hts, hc, ho, hk, hrest⟩
    exact ⟨c, o, cl, ks, cs, mid, mid', hts, hc, ho, hall hts ▸ hk, hrest⟩
  · rintro ⟨c, o, cl, ks, cs, mid, mid', hts, hc, ho, hk, hrest⟩
    exact ⟨c, o, cl, ks, cs, mid, mid', hts, hc, ho, (hall hts).symm ▸ hk, hrest⟩

/-- The rules of scripts read no node whose knobs stop at a word. -/
theorem nodeForm_eq_none_of_stop {knobs : Descent} {command : List Descent} {ts : List Token}
    (h : ∀ t rest, knobs ts.tail.tail = some (t, rest) → BeginsWithWord rest) :
    nodeForm [knobs] command ts = none := by
  match hf : nodeForm [knobs] command ts with
  | none => rfl
  | some (t, rest) =>
      obtain ⟨c, o, cl, ks, cs, mid, mid', rfl, -, -, hk, hcl, -, -⟩ := nodeForm_eq_some.1 hf
      obtain ⟨t', _, _, ht, hnil, -⟩ := Descent.all_cons_eq_some.1 hk
      obtain ⟨-, rfl⟩ := Descent.all_nil_eq_some.1 hnil
      exact absurd (h t' _ ht) (not_beginsWithWord (by simp [hcl, marks]) _)

theorem nodeForm_eq_none_of_word {command : List Descent} {ts : List Token}
    (h : BeginsWithWord ts.tail.tail) : nodeForm [] command ts = none := by
  match hf : nodeForm [] command ts with
  | none => rfl
  | some (t, rest) =>
      obtain ⟨c, o, cl, ks, cs, mid, mid', rfl, -, -, hk, hcl, -, -⟩ := nodeForm_eq_some.1 hf
      obtain ⟨-, rfl⟩ := Descent.all_nil_eq_some.1 hk
      exact absurd h (not_beginsWithWord (by simp [hcl, marks]) _)

/-- A form of a node that has read knobs with a block among them makes a node that holds it. -/
theorem buildNode_nodeForm {knobs : Descent} {command : List Descent} {ts mid rest : List Token}
    {t k : Tree} {as : List Attribute} (hf : nodeForm [knobs] command ts = some (t, rest))
    (hk : knobs ts.tail.tail = some (k, mid)) (ha : Builder.attributesOf k = .ok as)
    (hkt : k.tokens = []) : ∃ n, Builder.buildNode t = .ok (.node n) ∧ n.attributes = as ∧
      ∃ c o mid, ts = c :: o :: mid ∧ isWord c ∧ o.text = "\x7b" := by
  obtain ⟨c, o, cl, ks, cs, mid', mid'', rfl, hc, ho, hks, hcl, -, rfl⟩ := nodeForm_eq_some.1 hf
  obtain ⟨k', _, _, hk', hnil, rfl⟩ := Descent.all_cons_eq_some.1 hks
  obtain ⟨rfl, -⟩ := Descent.all_nil_eq_some.1 hnil
  obtain ⟨rfl, -⟩ : k' = k ∧ _ := by simpa [hk'] using hk
  exact ⟨_, buildNode_eq_ok ho (knobsUntilClose_knobs ha hkt hcl cs), rfl, c, o, mid', rfl, hc, ho⟩

theorem read_command_brace {c o : Token} {mid : List Token} (ho : o.text = "\x7b") :
    read limit (b + 1) "tcl_command" (c :: o :: mid) = none := by
  rw [read_command, ← read_command (c :: o :: mid).length b,
    read_command_eq_none_iff _ b (Nat.le_refl _)]
  exact noCommand_of_brace ho mid

/-! ## Wider values -/

section Widening

variable {value value' : Descent}
  (h : Widens value value' (fun _ => True) fun t => ∃ items, t = .list items)
include h

theorem widens_knobForm : Widens (knobForm value) (knobForm value') BeginsWithWord
    fun t => ∃ a, t = .attribute a ∧ ∃ text, a.value = .block text := by
  intro ts
  by_cases hts : BeginsWithWord ts
  · obtain ⟨n, mid, rfl, hn⟩ := hts
    rw [knobForm_cons hn, knobForm_cons hn]
    rcases h mid with he | ⟨hnone, -, v, rest, hv, items, rfl⟩
    · exact .inl (by rw [he])
    · rw [hnone, hv]
      exact .inr ⟨rfl, ⟨n, mid, rfl, hn⟩, _, rest, rfl, _, rfl, _, rfl⟩
  · exact .inl (by rw [knobForm_eq_none hts, knobForm_eq_none hts])

/-- Where the values of the wider reading are among the knobs, the other stops at a word. -/
theorem knobsForm_or (ts : List Token) :
    knobsForm limit value' ts = knobsForm limit value ts ∨
      (∀ t rest, knobsForm limit value ts = some (t, rest) → BeginsWithWord rest) ∧
        BeginsWithWord ts ∧ ∃ t rest as, knobsForm limit value' ts = some (t, rest) ∧
          Builder.attributesOf t = .ok as ∧ t.tokens = [] ∧ HoldsBlock as := by
  rw [knobsForm, knobsForm, sequence_singleton, sequence_singleton]
  rcases (widens_knobForm h).oneOrMore (fun t => ∃ a, t = .attribute a)
    (fun ts t rest h => (knobForm_sound h).2) limit ts with
    he | ⟨hstop, trees, rest, ht, hall, _, htree, a, rfl, text, ha⟩
  · exact .inl (by rw [he])
  · obtain ⟨⟨_, _⟩, hfirst⟩ := Descent.eq_some_of_oneOrMore ht
    obtain ⟨as, rfl⟩ := exists_attributes hall
    obtain ⟨a', hmem, he⟩ := List.mem_map.1 htree
    obtain rfl := Tree.attribute.inj he
    refine .inr ⟨fun t rest h => ?_, (knobForm_sound hfirst).1,
      (Tree.list (as.map .attribute)).flatten.flatten, rest, as, by rw [ht, Option.map_some], ?_,
      ?_, a', hmem, text, ha⟩
    · obtain ⟨⟨t', rest'⟩, hr, he⟩ := Option.map_eq_some_iff.1 h
      obtain ⟨-, rfl⟩ := Prod.mk.inj he
      exact hstop t' rest' hr
    · rw [attributesOf_flatten, attributesOf_flatten, Builder.attributesOf, attributesOfList_map]
    · simp [tokens_attributes]

/-- A node with a value of the wider reading's own is none by the other. -/
theorem anyNodeForm_or (ts : List Token) :
    anyNodeForm limit value' ts = anyNodeForm limit value ts ∨
      anyNodeForm limit value ts = none ∧
        (∃ c o mid, ts = c :: o :: mid ∧ isWord c ∧ o.text = "\x7b") ∧
        ∃ n rest, anyNodeForm limit value' ts = some (.node n, rest) ∧
          HoldsBlock n.attributes := by
  rw [anyNodeForm, anyNodeForm]
  rcases knobsForm_or limit h ts.tail.tail with he | ⟨hstop, hw, k, mid, as, hk, ha, hkt, hb⟩
  · left
    simp only [Descent.rule, nodeForm_congr he]
  · -- all forms of the other fail: with knobs they stop at a word, without they begin at one
    simp only [Descent.rule, nodeForm_eq_none_of_stop hstop, nodeForm_eq_none_of_word hw]
    cases hf : nodeForm [knobsForm limit value'] [read limit 1 "tcl_command"] ts with
    | some taken =>
        obtain ⟨t, rest⟩ := taken
        obtain ⟨n, hn, rfl, hts⟩ := buildNode_nodeForm hf hk ha hkt
        simp only [build_node, hn]
        exact .inr ⟨trivial, hts, n, rest, rfl, hb⟩
    | none =>
        cases hf' : nodeForm [knobsForm limit value'] [] ts with
        | some taken =>
            obtain ⟨t, rest⟩ := taken
            obtain ⟨n, hn, rfl, hts⟩ := buildNode_nodeForm hf' hk ha hkt
            simp only [build_node, hn]
            exact .inr ⟨trivial, hts, n, rest, rfl, hb⟩
        | none => exact .inl rfl

theorem widens_statementForm : Widens (statementForm limit value) (statementForm limit value')
    BeginsWithWord fun t => ∃ n ∈ t.nodes, HoldsBlock n.attributes := by
  intro ts
  rw [statementForm, statementForm, sequence_singleton, sequence_singleton]
  simp only [Descent.alternation]
  rcases anyNodeForm_or limit h ts with he | ⟨hn, ⟨c, o, mid, rfl, hc, ho⟩, n, rest, hr, hb⟩
  · exact .inl (by rw [he])
  · simp only [hn, hr, read_command_brace limit 0 ho]
    exact .inr ⟨rfl, ⟨c, _, rfl, hc⟩, .node n, rest, rfl, n, by simp [Tree.nodes], hb⟩

/-- To the end of the tokens, the wider reading reads what the other reads, and otherwise a node
that holds a block. -/
theorem scriptForm_or (ts : List Token) :
    scriptForm limit value' ts = scriptForm limit value ts ∨
      (∀ t, scriptForm limit value ts ≠ some (t, [])) ∧
        ∀ t rest, scriptForm limit value' ts = some (t, rest) →
          ∃ n ∈ t.nodes, HoldsBlock n.attributes := by
  rw [scriptForm, scriptForm, sequence_singleton, sequence_singleton]
  rcases (widens_statementForm limit h).oneOrMore (fun _ => True) (fun _ _ _ _ => trivial) limit
    ts with he | ⟨hstop, trees, rest, ht, -, t, htree, n, hn, hb⟩
  · exact .inl (by rw [he])
  · refine .inr ⟨fun t' h => ?_, fun t' rest' h => ⟨n, ?_, hb⟩⟩
    · obtain ⟨⟨_, _⟩, hr, he⟩ := Option.map_eq_some_iff.1 h
      obtain ⟨-, rfl⟩ := Prod.mk.inj he
      obtain ⟨_, _, hnil, -⟩ := hstop _ _ hr
      cases hnil
    · obtain ⟨rfl, -⟩ : (Tree.list trees).flatten.flatten = t' ∧ rest = rest' := by
        simpa [ht] using h
      rw [Tree.nodes_flatten, Tree.nodes_flatten, Tree.nodes, Tree.nodesList_eq_flatMap]
      exact List.mem_flatMap.2 ⟨t, htree, hn⟩

end Widening

/-- Up to the values that are blocks, a rule of nested blocks reads what that of scripts reads. -/
theorem widens_value : Widens (valueForm limit fun _ => none)
    (valueForm limit (readNested limit b "block")) (fun _ => True)
    fun t => ∃ items, t = .list items := by
  exact widens_valueForm limit
    (Descent.widens_of_mono (fun h => by cases h) (readNested_block limit b))

end Script

namespace ScriptParser

open Script

/-- The parser of the shipped tokens and of the shipped grammar with nested blocks laid over it. -/
def nested : Except AssemblyError ScriptParser :=
  ofTexts TokenTable.shippedText [RuleTable.scriptText, RuleTable.rotoText] RuleTable.rootRule
    BuilderTable.standard

theorem layerTexts_nested :
    layerTexts OrderedTable.empty [RuleTable.scriptText, RuleTable.rotoText] = .ok .nested := by
  rw [layerTexts, RuleTable.read_scriptText]
  simp only [RuleTable.layer_script]
  rw [layerTexts, RuleTable.read_rotoText]
  rfl

theorem isOk_compile_nested : (Graph.compile RuleTable.nested TokenTable.script).isOk := by
  decide

theorem contains_rootRule_nested : RuleTable.nested.contains RuleTable.rootRule := by
  decide

/-- A parser made of the tables of scripts with nested blocks. -/
structure IsNested (q : ScriptParser) : Prop where
  tokens : q.tokens = .script
  compiled : Graph.compile .nested .script = .ok q.graph
  builders : q.builders = .standard
  root : q.graph.rule? RuleTable.rootRule = some q.root

theorem nested_isNested : ∃ q, nested = .ok q ∧ q.IsNested := by
  match hg : Graph.compile RuleTable.nested TokenTable.script with
  | .error e =>
      have := isOk_compile_nested
      simp [hg, Except.isOk, Except.toBool] at this
  | .ok graph =>
      obtain ⟨id, hid⟩ := Graph.compile_rule? hg contains_rootRule_nested
      exact ⟨⟨.script, graph, .standard, id⟩,
        ofTexts_eq_ok TokenTable.shipped_eq layerTexts_nested hg hid, rfl, hg, rfl, hid⟩

variable {p q : ScriptParser}

/-- The tokens that resolve to a tree without blocks are the same with and without the extension. -/
theorem resolveTokens_iff_nested (hp : p.IsScript) (hq : q.IsNested) {ts : List Token}
    {nodes : List Node} (h : ∀ n ∈ nodes, ¬HoldsBlock n.attributes) :
    (∃ t, p.resolveTokens ts.toArray = .ok t ∧ t.nodes = nodes) ↔
      ∃ t, q.resolveTokens ts.toArray = .ok t ∧ t.nodes = nodes := by
  by_cases hne : ts = []
  · have hnil (r : ScriptParser) : r.resolveTokens [].toArray = .ok (.list []) := rfl
    rw [hne, hnil p, hnil q]
  · simp only [hp.resolveTokens_eq_ok_iff hne,
      resolveTokens_eq_ok_iff hq.compiled hq.root hne, hq.builders]
    change (∃ t, read ts.length (90 + 10) "main" ts = some (t, []) ∧ t.nodes = nodes) ↔
      ∃ t, readNested ts.length (90 + 10) "main" ts = some (t, []) ∧ t.nodes = nodes
    rw [read_main_eq, readNested_main]
    rcases scriptForm_or ts.length (widens_value ts.length 94) ts with he | ⟨hnone, hblock⟩
    · rw [he]
    · constructor
      · rintro ⟨t, ht, -⟩
        exact absurd ht (hnone t)
      · rintro ⟨t, ht, rfl⟩
        obtain ⟨n, hn, hb⟩ := hblock t [] ht
        exact absurd hb (h n hn)

/-- Laying nested blocks over the shipped grammar changes no script that was one before: the shipped
parser gives nodes for a text exactly when the extended parser gives these nodes and none of them
has a block as a value. -/
theorem shipped_parse_iff_nested : ∃ p q, shipped = .ok p ∧ nested = .ok q ∧ ∀ text nodes,
    p.parse text = .ok nodes ↔ q.parse text = .ok nodes ∧
      ∀ n ∈ nodes, ∀ a ∈ n.attributes, ∀ block, a.value ≠ .block block := by
  obtain ⟨p, hp, hscript⟩ := shipped_isScript
  obtain ⟨q, hq, hnested⟩ := nested_isNested
  refine ⟨p, q, hp, hq, fun text nodes => ?_⟩
  have htok : q.tokenize text = p.tokenize text := by
    rw [tokenize, tokenize, hnested.tokens, hscript.tokens]
  have iff (h : ∀ n ∈ nodes, ∀ a ∈ n.attributes, ∀ block, a.value ≠ .block block) :
      p.parse text = .ok nodes ↔ q.parse text = .ok nodes := by
    simp only [parse_eq_ok_iff, htok]
    refine exists_congr fun ts => and_congr_right fun _ =>
      resolveTokens_iff_nested hscript hnested ?_
    rintro n hn ⟨a, ha, block, hb⟩
    exact h n hn a ha block hb
  constructor
  · intro h
    have hs := isScripted_of_parse hscript h
    have hblock : ∀ n ∈ nodes, ∀ a ∈ n.attributes, ∀ block, a.value ≠ .block block := by
      intro n hn a ha block hb
      have := (hs n hn).values a ha
      rw [hb] at this
      exact this
    exact ⟨(iff hblock).1 h, hblock⟩
  · rintro ⟨h, hblock⟩
    exact (iff hblock).2 h

end ScriptParser

end NodeScript
