import NodeScript.Proofs.Grammar.Compilation

/-!
# Compilation as a recursion

Compiling a rule compiles the rules that its alternatives name, without any bound on how deep that
goes. The recursion is given here by its runs, which are finite, so that to have a run is to end.
It ends on all tables, since a rule that is entered again has its node already, and its one outcome
is what `compile` gives (`compileRun_iff`): the number of rules is never too small a limit.
-/

namespace NodeScript.Graph

/-- The items of an alternative with one more operand. Where an alternation waits for it, it joins
the item before it. -/
def Draft.attach (items : List Nat) (pending : Bool) (id : Nat) (d : Draft) : List Nat × Draft :=
  match pending, items with
  | true, left :: items =>
    let (joined, d) := d.push (.alternation left id)
    (joined :: items, d)
  | _, items => (id :: items, d)

mutual

/-- Compiling a rule from a draft comes to an outcome. -/
inductive RuleRun (table : RuleTable) (tokens : TokenTable) :
    String → Draft → Except GrammarError (Nat × Draft) → Prop
  | known {name : String} {id : Nat} {d : Draft} : d.rules.lookup name = some id →
    RuleRun table tokens name d (.ok (id, d))
  | closed {name : String} {ids : List Nat} {d d' : Draft} : d.rules.lookup name = none →
    AlternativesRun table tokens name ((table.get? name).getD []) (d.openRule name).2
      (.ok (ids, d')) →
    RuleRun table tokens name d
      (.ok ((d.openRule name).1, d'.closeRule name (d.openRule name).1 ids))
  | stopped {name : String} {e : GrammarError} {d : Draft} : d.rules.lookup name = none →
    AlternativesRun table tokens name ((table.get? name).getD []) (d.openRule name).2 (.error e) →
    RuleRun table tokens name d (.error e)

/-- Compiling the alternatives of the rule of a name. -/
inductive AlternativesRun (table : RuleTable) (tokens : TokenTable) :
    String → List Alternative → Draft → Except GrammarError (List Nat × Draft) → Prop
  | nil {owner : String} {d : Draft} : AlternativesRun table tokens owner [] d (.ok ([], d))
  | stopped {owner : String} {parts : Alternative} {rest : List Alternative} {e : GrammarError}
      {d : Draft} : PartsRun table tokens owner [] false parts d (.error e) →
    AlternativesRun table tokens owner (parts :: rest) d (.error e)
  | later {owner : String} {parts : Alternative} {rest : List Alternative} {e : GrammarError}
      {id : Nat} {d d' : Draft} : PartsRun table tokens owner [] false parts d (.ok (id, d')) →
    AlternativesRun table tokens owner rest d' (.error e) →
    AlternativesRun table tokens owner (parts :: rest) d (.error e)
  | cons {owner : String} {parts : Alternative} {rest : List Alternative} {id : Nat}
      {ids : List Nat} {d d' d'' : Draft} :
    PartsRun table tokens owner [] false parts d (.ok (id, d')) →
    AlternativesRun table tokens owner rest d' (.ok (ids, d'')) →
    AlternativesRun table tokens owner (parts :: rest) d (.ok (id :: ids, d''))

/-- Compiling the parts of an alternative, after the items that are there. -/
inductive PartsRun (table : RuleTable) (tokens : TokenTable) :
    String → List Nat → Bool → Alternative → Draft → Except GrammarError (Nat × Draft) → Prop
  | done {owner : String} {items : List Nat} {d : Draft} :
    PartsRun table tokens owner items false [] d (.ok (d.push (.sequence items.reverse)))
  | unjoined {owner : String} {items : List Nat} {d : Draft} :
    PartsRun table tokens owner items true [] d (.error (.danglingOperator owner))
  | oneOrMore {owner : String} {item : Nat} {items : List Nat} {rest : Alternative} {d : Draft}
      {out : Except GrammarError (Nat × Draft)} :
    PartsRun table tokens owner ((d.push (.repetition item)).1 :: items) false rest
      (d.push (.repetition item)).2 out →
    PartsRun table tokens owner (item :: items) false (.oneOrMore :: rest) d out
  | unrepeated {owner : String} {items : List Nat} {pending : Bool} {rest : Alternative}
      {d : Draft} : (pending || items.isEmpty) = true →
    PartsRun table tokens owner items pending (.oneOrMore :: rest) d
      (.error (.danglingOperator owner))
  | or {owner : String} {item : Nat} {items : List Nat} {rest : Alternative} {d : Draft}
      {out : Except GrammarError (Nat × Draft)} :
    PartsRun table tokens owner (item :: items) true rest d out →
    PartsRun table tokens owner (item :: items) false (.or :: rest) d out
  | unaligned {owner : String} {items : List Nat} {pending : Bool} {rest : Alternative}
      {d : Draft} : (pending || items.isEmpty) = true →
    PartsRun table tokens owner items pending (.or :: rest) d (.error (.danglingOperator owner))
  | operand {owner : String} {items : List Nat} {pending : Bool} {part : Part}
      {rest : Alternative} {id : Nat} {d d' : Draft} {out : Except GrammarError (Nat × Draft)} :
    OperandRun table tokens part d (.ok (id, d')) →
    PartsRun table tokens owner (d'.attach items pending id).1 false rest
      (d'.attach items pending id).2 out →
    PartsRun table tokens owner items pending (part :: rest) d out
  | stopped {owner : String} {items : List Nat} {pending : Bool} {part : Part}
      {rest : Alternative} {e : GrammarError} {d : Draft} :
    OperandRun table tokens part d (.error e) →
    PartsRun table tokens owner items pending (part :: rest) d (.error e)

/-- Compiling an operand, which is a literal, a terminal or a rule. -/
inductive OperandRun (table : RuleTable) (tokens : TokenTable) :
    Part → Draft → Except GrammarError (Nat × Draft) → Prop
  | literal {text : String} {d : Draft} :
    OperandRun table tokens (.literal text) d (.ok (d.literal text))
  | terminal {name : String} {d : Draft} : table.contains name = false →
    OperandRun table tokens (.symbol name) d (.ok (d.terminal tokens name))
  | rule {name : String} {d : Draft} {out : Except GrammarError (Nat × Draft)} :
    table.contains name = true → RuleRun table tokens name d out →
    OperandRun table tokens (.symbol name) d out

end

/-- Compiling the rules of a list of names. -/
inductive RulesRun (table : RuleTable) (tokens : TokenTable) :
    List String → Draft → Except GrammarError Draft → Prop
  | nil {d : Draft} : RulesRun table tokens [] d (.ok d)
  | stopped {name : String} {rest : List String} {e : GrammarError} {d : Draft} :
    RuleRun table tokens name d (.error e) → RulesRun table tokens (name :: rest) d (.error e)
  | cons {name : String} {rest : List String} {id : Nat} {d d' : Draft}
      {out : Except GrammarError Draft} : RuleRun table tokens name d (.ok (id, d')) →
    RulesRun table tokens rest d' out → RulesRun table tokens (name :: rest) d out

open Draft (Grows Sound)

variable {table : RuleTable} {tokens : TokenTable} {rule : String → Compile Nat} {limit : Nat}
  {d d' : Draft}

/-! ## All tables have a run -/

/-- Compiling a rule runs, wherever at most `limit` rules have no node yet. -/
def RunsRule (table : RuleTable) (tokens : TokenTable) (limit : Nat)
    (rule : String → Compile Nat) : Prop :=
  ∀ ⦃name d⦄, table.contains name → d.Sound tokens → (d.unopened table).length ≤ limit →
    RuleRun table tokens name d (rule name d)

/-- Compiling parts runs, after any items. -/
def RunsParts (table : RuleTable) (tokens : TokenTable) (limit : Nat)
    (rule : String → Compile Nat) (owner : String) (parts : Alternative) : Prop :=
  ∀ ⦃items pending d⦄, d.Sound tokens → (d.unopened table).length ≤ limit →
    PartsRun table tokens owner items pending parts d
      (compileParts table tokens rule owner items pending parts d)

theorem symbol_runs (hr : RunsRule table tokens limit rule) (hs : d.Sound tokens)
    (hl : (d.unopened table).length ≤ limit) (name : String) :
    OperandRun table tokens (.symbol name) d
      (compileOperand table tokens rule (.symbol name) d) := by
  simp only [compileOperand]
  split
  · exact .rule ‹_› (hr ‹_› hs hl)
  · exact .terminal (Bool.eq_false_iff.2 ‹_›)

/-- Going on with the parts after one step that has grown the draft. -/
theorem RunsParts.after {owner : String} {parts : Alternative}
    (h : RunsParts table tokens limit rule owner parts)
    (hg : Grows table tokens d d') (hl : (d.unopened table).length ≤ limit) (items : List Nat)
    (pending : Bool) : PartsRun table tokens owner items pending parts d'
      (compileParts table tokens rule owner items pending parts d') :=
  h hg.sound (Nat.le_trans (unopened_length_le hg.keep) hl)

theorem RunsParts.attach {owner : String} {parts : Alternative}
    (h : RunsParts table tokens limit rule owner parts)
    (hg : Grows table tokens d d') (hl : (d.unopened table).length ≤ limit) (items : List Nat)
    (pending : Bool) (id : Nat) :
    PartsRun table tokens owner (d'.attach items pending id).1 false parts
      (d'.attach items pending id).2
      (match pending, items with
      | true, left :: items =>
        let (joined, d) := d'.push (.alternation left id)
        compileParts table tokens rule owner (joined :: items) false parts d
      | _, items => compileParts table tokens rule owner (id :: items) false parts d') := by
  cases pending with
  | false => exact h.after hg hl _ _
  | true =>
      cases items with
      | nil => exact h.after hg hl _ _
      | cons left items =>
          have hp := Draft.push_grows table hg.sound (.alternation left id) (by simp)
          exact h.after (hg.trans hp) hl _ _

theorem compileParts_runs (hr : RunsRule table tokens limit rule)
    (hc : CompilesRule table tokens limit rule) {owner : String} :
    ∀ parts, RunsParts table tokens limit rule owner parts
  | [] => by
      intro items pending d _ _
      cases pending with
      | true => exact .unjoined
      | false => exact .done
  | .oneOrMore :: rest => by
      intro items pending d hs hl
      cases items with
      | nil => exact .unrepeated (Bool.or_true _)
      | cons item items =>
          cases pending with
          | true => exact .unrepeated rfl
          | false =>
              have hp := Draft.push_grows table hs (.repetition item) (by simp)
              exact .oneOrMore ((compileParts_runs hr hc rest).after hp hl _ _)
  | .or :: rest => by
      intro items pending d hs hl
      cases pending with
      | true => exact .unaligned rfl
      | false =>
          cases items with
          | nil => exact .unaligned rfl
          | cons item items => exact .or (compileParts_runs hr hc rest hs hl)
  | .symbol name :: rest => by
      intro items pending d hs hl
      have ran := symbol_runs hr hs hl name
      simp only [compileParts]
      cases ho : compileOperand table tokens rule (.symbol name) d with
      | error e => exact .stopped (ho ▸ ran)
      | ok made =>
          obtain ⟨hg, -⟩ := symbol_grows hc hs hl ho
          exact .operand (ho ▸ ran) ((compileParts_runs hr hc rest).attach hg hl items pending _)
  | .literal text :: rest => by
      intro items pending d hs hl
      obtain ⟨hg, -⟩ := Draft.literal_grows table hs text
      exact .operand .literal ((compileParts_runs hr hc rest).attach hg hl items pending _)

theorem compileAlternatives_runs (hr : RunsRule table tokens limit rule)
    (hc : CompilesRule table tokens limit rule) {owner : String} : ∀ {alternatives d},
    d.Sound tokens →
    (d.unopened table).length ≤ limit →
    AlternativesRun table tokens owner alternatives d
      (compileAlternatives table tokens rule owner alternatives d)
  | [], d, _, _ => .nil
  | parts :: rest, d, hs, hl => by
      have ran : PartsRun table tokens owner [] false parts d _ :=
        compileParts_runs hr hc parts hs hl
      simp only [compileAlternatives]
      cases hp : compileParts table tokens rule owner [] false parts d with
      | error e => exact .stopped (hp ▸ ran)
      | ok made =>
          obtain ⟨hg, -⟩ := compileParts_compiles hc parts hs hl .nil hp
          have ran' : AlternativesRun table tokens owner rest made.2 _ :=
            compileAlternatives_runs hr hc hg.sound
              (Nat.le_trans (unopened_length_le hg.keep) hl)
          cases ha : compileAlternatives table tokens rule owner rest made.2 with
          | error e =>
              simp only [ha]
              exact .later (hp ▸ ran) (ha ▸ ran')
          | ok others =>
              simp only [ha]
              exact .cons (hp ▸ ran) (ha ▸ ran')

theorem ruleRun_of_known {name : String} {id : Nat} (h : d.graph.rule? name = some id) :
    RuleRun table tokens name d (compileRule table tokens limit name d) := by
  rw [compileRule_of_known h]
  exact .known h

theorem compileRule_runs (limit : Nat) :
    RunsRule table tokens limit (compileRule table tokens limit) := by
  induction limit with
  | zero =>
      intro name d hc hs hl
      cases hn : d.graph.rule? name with
      | some id => exact ruleRun_of_known hn
      | none =>
          -- no rule of the table is without a node, so this one is none of them
          have := unopened_openRule hn hc
          omega
  | succ limit ih =>
      intro name d hc hs hl
      cases hn : d.graph.rule? name with
      | some id => exact ruleRun_of_known hn
      | none =>
          have hn' : d.rules.lookup name = none := hn
          have fewer := unopened_openRule hn hc
          have ran : AlternativesRun table tokens name ((table.get? name).getD [])
              (d.openRule name).2 _ :=
            compileAlternatives_runs ih (compileRule_compiles limit) (hs.openRule hn) (by omega)
          simp only [compileRule, hn']
          cases ha : compileAlternatives table tokens (compileRule table tokens limit) name
              ((table.get? name).getD []) (d.openRule name).2 with
          | error e => exact .stopped hn' (ha ▸ ran)
          | ok made => exact .closed hn' (ha ▸ ran)

theorem compileRules_runs (limit : Nat) : ∀ {names d}, (∀ name ∈ names, table.contains name) →
    d.Sound tokens → (d.unopened table).length ≤ limit →
    RulesRun table tokens names d (compileRules table tokens limit names d)
  | [], d, _, _, _ => .nil
  | name :: rest, d, hc, hs, hl => by
      obtain ⟨hc₁, hcs⟩ := List.forall_mem_cons.1 hc
      have ran := compileRule_runs limit hc₁ hs hl
      simp only [compileRules]
      cases hr : compileRule table tokens limit name d with
      | error e => exact .stopped (hr ▸ ran)
      | ok made =>
          obtain ⟨hg, -⟩ := compileRule_compiles limit hc₁ hs hl hr
          exact .cons (hr ▸ ran)
            (compileRules_runs limit hcs hg.sound (Nat.le_trans (unopened_length_le hg.keep) hl))

/-! ## No other run -/

-- The recursion is on the first of the two runs.
mutual

theorem RuleRun.unique : ∀ {name : String} {d : Draft}
    {out out' : Except GrammarError (Nat × Draft)},
    RuleRun table tokens name d out → RuleRun table tokens name d out' → out = out'
  | _, _, _, _, .known hl, h' => by
      cases h' with
      | known hl' =>
          obtain rfl := Option.some.inj (hl.symm.trans hl')
          rfl
      | closed hn' | stopped hn' => exact nomatch hl.symm.trans hn'
  | _, _, _, _, .closed hn ha, h' => by
      cases h' with
      | known hl' => exact nomatch hn.symm.trans hl'
      | closed _ ha' =>
          cases ha.unique ha'
          rfl
      | stopped _ ha' => cases ha.unique ha'
  | _, _, _, _, .stopped hn ha, h' => by
      cases h' with
      | known hl' => exact nomatch hn.symm.trans hl'
      | closed _ ha' => cases ha.unique ha'
      | stopped _ ha' =>
          cases ha.unique ha'
          rfl
termination_by structural _ _ _ _ h => h

theorem AlternativesRun.unique : ∀ {owner : String} {alternatives : List Alternative} {d : Draft}
    {out out' : Except GrammarError (List Nat × Draft)},
    AlternativesRun table tokens owner alternatives d out →
    AlternativesRun table tokens owner alternatives d out' → out = out'
  | _, _, _, _, _, .nil, h' => by
      cases h'
      rfl
  | _, _, _, _, _, .stopped hp, h' => by
      cases h' with
      | stopped hp' =>
          cases hp.unique hp'
          rfl
      | later hp' | cons hp' => cases hp.unique hp'
  | _, _, _, _, _, .later hp ha, h' => by
      cases h' with
      | stopped hp' => cases hp.unique hp'
      | later hp' ha' =>
          cases hp.unique hp'
          cases ha.unique ha'
          rfl
      | cons hp' ha' =>
          cases hp.unique hp'
          cases ha.unique ha'
  | _, _, _, _, _, .cons hp ha, h' => by
      cases h' with
      | stopped hp' => cases hp.unique hp'
      | later hp' ha' =>
          cases hp.unique hp'
          cases ha.unique ha'
      | cons hp' ha' =>
          cases hp.unique hp'
          cases ha.unique ha'
          rfl
termination_by structural _ _ _ _ _ h => h

theorem PartsRun.unique : ∀ {owner : String} {items : List Nat} {pending : Bool}
    {parts : Alternative} {d : Draft} {out out' : Except GrammarError (Nat × Draft)},
    PartsRun table tokens owner items pending parts d out →
    PartsRun table tokens owner items pending parts d out' → out = out'
  | _, _, _, _, _, _, _, .done, h' => by
      cases h'
      rfl
  | _, _, _, _, _, _, _, .unjoined, h' => by
      cases h'
      rfl
  | _, _, _, _, _, _, _, .oneOrMore hp, h' => by
      cases h' with
      | oneOrMore hp' => exact hp.unique hp'
      | unrepeated he' => cases he'
      | operand ho' | stopped ho' => cases ho'
  | _, _, _, _, _, _, _, .unrepeated he, h' => by
      cases h' with
      | oneOrMore => cases he
      | unrepeated => rfl
      | operand ho' | stopped ho' => cases ho'
  | _, _, _, _, _, _, _, .or hp, h' => by
      cases h' with
      | or hp' => exact hp.unique hp'
      | unaligned he' => cases he'
      | operand ho' | stopped ho' => cases ho'
  | _, _, _, _, _, _, _, .unaligned he, h' => by
      cases h' with
      | or => cases he
      | unaligned => rfl
      | operand ho' | stopped ho' => cases ho'
  | _, _, _, _, _, _, _, .operand ho hp, h' => by
      cases h' with
      | operand ho' hp' =>
          cases ho.unique ho'
          exact hp.unique hp'
      | stopped ho' => cases ho.unique ho'
      | oneOrMore | unrepeated | or | unaligned => cases ho
  | _, _, _, _, _, _, _, .stopped ho, h' => by
      cases h' with
      | operand ho' => cases ho.unique ho'
      | stopped ho' =>
          cases ho.unique ho'
          rfl
      | oneOrMore | unrepeated | or | unaligned => cases ho
termination_by structural _ _ _ _ _ _ _ h => h

theorem OperandRun.unique : ∀ {part : Part} {d : Draft}
    {out out' : Except GrammarError (Nat × Draft)},
    OperandRun table tokens part d out → OperandRun table tokens part d out' → out = out'
  | _, _, _, _, .literal, h' => by
      cases h'
      rfl
  | _, _, _, _, .terminal hc, h' => by
      cases h' with
      | terminal => rfl
      | rule hc' => exact nomatch hc.symm.trans hc'
  | _, _, _, _, .rule hc hr, h' => by
      cases h' with
      | terminal hc' => exact nomatch hc.symm.trans hc'
      | rule _ hr' => exact hr.unique hr'
termination_by structural _ _ _ _ h => h

end

theorem RulesRun.unique {names : List String} {d : Draft} {out out' : Except GrammarError Draft}
    (h : RulesRun table tokens names d out) (h' : RulesRun table tokens names d out') :
    out = out' := by
  induction h with
  | nil =>
      cases h'
      rfl
  | stopped hr =>
      cases h' with
      | stopped hr' =>
          cases hr.unique hr'
          rfl
      | cons hr' => cases hr.unique hr'
  | cons hr _ ih =>
      cases h' with
      | stopped hr' => cases hr.unique hr'
      | cons hr' hn' =>
          cases hr.unique hr'
          exact ih hn'

/-! ## Tables -/

/-- Compiling a table comes to an outcome. -/
def CompileRun (table : RuleTable) (tokens : TokenTable) (out : Except GrammarError Graph) : Prop :=
  ∃ made, RulesRun table tokens table.keys .empty made ∧ out = made.map Draft.graph

theorem compile_eq_map (table : RuleTable) (tokens : TokenTable) : compile table tokens =
    (compileRules table tokens table.entries.length table.keys .empty).map Draft.graph := by
  unfold compile
  cases compileRules table tokens table.entries.length table.keys .empty <;> rfl

/-- The recursion ends on all tables, and what `compile` gives is its one outcome. -/
theorem compileRun_iff {out : Except GrammarError Graph} :
    CompileRun table tokens out ↔ out = compile table tokens := by
  have ran : RulesRun table tokens table.keys .empty _ :=
    compileRules_runs table.entries.length (fun _ => OrderedTable.contains_iff_mem_keys.2)
      Sound.empty (unopened_empty_length_le table)
  rw [compile_eq_map]
  constructor
  · rintro ⟨made, hm, rfl⟩
    rw [hm.unique ran]
  · rintro rfl
    exact ⟨_, ran, rfl⟩

end NodeScript.Graph
