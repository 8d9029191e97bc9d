import Mathlib.Data.Finset.Card
import Mathlib.Logic.Relation
import NodeScript.Proofs.Grammar.Heights
import NodeScript.Proofs.Script.Rules
import NodeScript.Proofs.Token.Table

/-!
# Rules that never come back to themselves

Where no rule refers to itself, not even through other rules, the rules that can be entered below a
node are fewer the further down it is. Their count bounds how deep rules get into one another, so a
table with no more rules than the nesting limit never meets that limit.
-/

namespace NodeScript

namespace RuleTable

/-- The name that a part is a symbol of. -/
def symbol? : Part → Option String
  | .symbol name => some name
  | _ => none

/-- The rules that the alternatives of a rule have among their parts. -/
def referred (table : RuleTable) (name : String) : List String :=
  (((table.get? name).getD []).flatMap (·.filterMap symbol?)).filter table.contains

def Refers (table : RuleTable) (name other : String) : Prop :=
  other ∈ table.referred name

/-- No rule refers to itself, directly or through other rules. -/
def IsNonrecursive (table : RuleTable) : Prop :=
  ∀ name, ¬Relation.TransGen table.Refers name name

variable {table : RuleTable}

theorem refers_of_symbol {name other : String} {parts : Alternative}
    (hm : parts ∈ (table.get? name).getD []) (hs : Part.symbol other ∈ parts)
    (hc : table.contains other) : table.Refers name other :=
  List.mem_filter.2 ⟨List.mem_flatMap.2 ⟨parts, hm, List.mem_filterMap.2 ⟨_, hs, rfl⟩⟩, hc⟩

theorem mem_keys_of_refers {name other : String} (h : table.Refers name other) :
    name ∈ table.keys := by
  refine OrderedTable.contains_iff_mem_keys.1 ?_
  rw [OrderedTable.contains]
  cases hg : table.get? name with
  | some alternatives => rfl
  | none => simp [Refers, referred, hg] at h

/-- Where all references lead on in some order, none leads back. -/
theorem isNonrecursive_of_lt (rank : String → Nat)
    (h : ∀ name ∈ table.keys, ∀ other ∈ table.referred name, rank name < rank other) :
    table.IsNonrecursive := by
  have lt {name other : String} (hr : Relation.TransGen table.Refers name other) :
      rank name < rank other := by
    induction hr with
    | single hr => exact h _ (mem_keys_of_refers hr) _ hr
    | tail _ hr ih => exact Nat.lt_trans ih (h _ (mem_keys_of_refers hr) _ hr)
  exact fun name hr => Nat.lt_irrefl _ (lt hr)

/-- The rules of scripts refer to none that refers back to them. -/
theorem script_isNonrecursive : script.IsNonrecursive := by
  let order := ["main", "statement", "node", "knobs", "knob", "knob_value", "animated_value",
    "curve", "keyframe", "number", "multi_value", "scalar", "tcl_command"]
  refine isNonrecursive_of_lt order.idxOf ?_
  decide

theorem rules_attach {phrases : List Phrase} {pending : Bool} {operand p : Phrase} {name : String}
    (hp : p ∈ attach phrases pending operand) (hn : name ∈ p.rules) :
    name ∈ operand.rules ∨ ∃ q ∈ phrases, name ∈ q.rules := by
  unfold attach at hp
  split at hp
  · rename_i left before
    rcases List.mem_cons.1 hp with rfl | hp
    · rcases List.mem_append.1 hn with hn | hn
      · exact .inr ⟨left, List.mem_cons_self, hn⟩
      · exact .inl hn
    · exact .inr ⟨p, List.mem_cons_of_mem _ hp, hn⟩
  · rcases List.mem_cons.1 hp with rfl | hp
    · exact .inl hn
    · exact .inr ⟨p, hp, hn⟩

theorem rules_symbolPhrase {name other : String} (h : other ∈ (table.symbolPhrase name).rules) :
    table.contains name ∧ other = name := by
  unfold symbolPhrase at h
  split at h
  · exact ⟨‹_›, List.mem_singleton.1 h⟩
  · cases h

/-- The phrases of parts refer only to rules among the parts. -/
theorem symbol_of_phrasesFrom? {name : String} {parts : Alternative} {phrases out : List Phrase}
    {pending : Bool} (h : table.phrasesFrom? phrases pending parts = some out) {p : Phrase}
    (hp : p ∈ out) (hn : name ∈ p.rules) :
    (∃ q ∈ phrases, name ∈ q.rules) ∨ table.contains name ∧ Part.symbol name ∈ parts := by
  induction parts generalizing phrases pending with
  | nil =>
      cases pending with
      | true => cases h
      | false =>
          obtain rfl : phrases.reverse = out := by simpa [phrasesFrom?] using h
          exact .inl ⟨p, List.mem_reverse.1 hp, hn⟩
  | cons part rest ih =>
      have later {phrases : List Phrase} {pending : Bool}
          (h : table.phrasesFrom? phrases pending rest = some out) :
          (∃ q ∈ phrases, name ∈ q.rules) ∨
            table.contains name ∧ Part.symbol name ∈ part :: rest :=
        (ih h).imp_right fun ⟨hc, hm⟩ => ⟨hc, List.mem_cons_of_mem _ hm⟩
      cases part with
      | oneOrMore =>
          match phrases, pending with
          | [], _ => cases h
          | latest :: before, true => cases h
          | latest :: before, false =>
              refine (later h).imp_left fun ⟨q, hq, hnq⟩ => ?_
              rcases List.mem_cons.1 hq with rfl | hq
              · exact ⟨latest, List.mem_cons_self, hnq⟩
              · exact ⟨q, List.mem_cons_of_mem _ hq, hnq⟩
      | or =>
          simp only [phrasesFrom?] at h
          split at h
          · cases h
          · exact later h
      | symbol other =>
          rcases later h with ⟨q, hq, hnq⟩ | hm
          · rcases rules_attach hq hnq with ho | hin
            · obtain ⟨hc, rfl⟩ := rules_symbolPhrase ho
              exact .inr ⟨hc, List.mem_cons_self⟩
            · exact .inl hin
          · exact .inr hm
      | literal text =>
          rcases later h with ⟨q, hq, hnq⟩ | hm
          · rcases rules_attach hq hnq with ho | hin
            · cases ho
            · exact .inl hin
          · exact .inr hm

/-- The phrases of an alternative refer only to rules that it names. -/
theorem symbol_of_phrases? {name : String} {parts : Alternative} {phrases : List Phrase}
    (h : table.phrases? parts = some phrases) {p : Phrase} (hp : p ∈ phrases)
    (hn : name ∈ p.rules) : table.contains name ∧ Part.symbol name ∈ parts := by
  rcases symbol_of_phrasesFrom? h hp hn with ⟨q, hq, -⟩ | hs
  · cases hq
  · exact hs

theorem refers_of_phrases? {name other : String} {parts : Alternative} {phrases : List Phrase}
    (hm : parts ∈ (table.get? name).getD []) (h : table.phrases? parts = some phrases) {p : Phrase}
    (hp : p ∈ phrases) (hn : other ∈ p.rules) : table.Refers name other := by
  obtain ⟨hc, ho⟩ := symbol_of_phrases? h hp hn
  exact refers_of_symbol hm ho hc

end RuleTable

namespace Graph

variable {g : Graph} {table : RuleTable} {tokens : TokenTable}

/-- The node is below an alternative of the rule, with no other rule between. -/
inductive InBody (g : Graph) (name : String) : Nat → Prop
  | alternative {id i : Nat} {ids : List Nat} : g.nodes[id]? = some (.composite name ids) →
    i ∈ ids → InBody g name i
  | child {id i : Nat} {node : GraphNode} : InBody g name id → g.nodes[id]? = some node →
    node.isRule = false → i ∈ node.children → InBody g name i

/-- In the body of a rule stand the table's alternatives, and below them phrases that refer to
nothing but what the rule refers to. -/
theorem InBody.denotes (h : compile table tokens = .ok g) {name : String} {id : Nat}
    (hid : g.InBody name id) :
    (∃ parts ∈ (table.get? name).getD [], g.DenotesParts table tokens parts id) ∨
      ∃ p : Phrase, g.Denotes tokens p id ∧ ∀ other ∈ p.rules, table.Refers name other := by
  induction hid with
  | @alternative id i ids hn hi =>
      exact .inl (exists_left_of_forall₂ (alternatives_of_composite h hn) i hi)
  | @child id i node _ hn hr hi ih =>
      right
      rcases ih with ⟨parts, hm, phrases, ids, hp, hn', hd, -⟩ | ⟨p, hp, href⟩
      · obtain rfl : node = .sequence ids := by simpa [hn] using hn'
        obtain ⟨p, hmem, hden⟩ := exists_left_of_forall₂ hd i hi
        exact ⟨p, hden, fun other ho => RuleTable.refers_of_phrases? hm hp hmem ho⟩
      · cases p with
        | rule other =>
            obtain ⟨ids, hn', -⟩ := compile_defines h hp
            obtain rfl : node = .composite other ids := by simpa [hn] using hn'
            cases hr
        | terminal other =>
            have hn' : g.nodes[id]? = some (.terminal other (tokens.row? other)) := hp
            obtain rfl : node = .terminal other (tokens.row? other) := by simpa [hn] using hn'
            cases hi
        | literal text =>
            have hn' : g.nodes[id]? = some (.literal text) := hp
            obtain rfl : node = .literal text := by simpa [hn] using hn'
            cases hi
        | alternation left right =>
            obtain ⟨j, k, hn', -, -, hj, hk⟩ := hp
            obtain rfl : node = .alternation j k := by simpa [hn] using hn'
            obtain ⟨hleft, hright⟩ := List.forall_mem_append.1 href
            obtain rfl | rfl : i = j ∨ i = k := by simpa [GraphNode.children] using hi
            · exact ⟨left, hj, hleft⟩
            · exact ⟨right, hk, hright⟩
        | oneOrMore body =>
            obtain ⟨j, hn', -, hb⟩ := hp
            obtain rfl : node = .repetition j := by simpa [hn] using hn'
            obtain rfl : i = j := by simpa [GraphNode.children] using hi
            exact ⟨body, hb, href⟩

/-- A rule in the body of another is one that the other refers to. -/
theorem InBody.refers (h : compile table tokens = .ok g) {name other : String} {id : Nat}
    {ids : List Nat} (hid : g.InBody name id) (hn : g.nodes[id]? = some (.composite other ids)) :
    table.Refers name other := by
  rcases hid.denotes h with ⟨parts, -, phrases, ids', -, hn', -⟩ | ⟨p, hp, href⟩
  · simp [hn] at hn'
  · cases p with
    | rule name' =>
        obtain ⟨ids', hn', -⟩ := compile_defines h hp
        obtain ⟨rfl, -⟩ : other = name' ∧ _ := by simpa [hn] using hn'
        exact href other (List.mem_singleton_self other)
    | terminal name' => simp [Denotes, hn] at hp
    | literal text => simp [Denotes, hn] at hp
    | alternation left right =>
        obtain ⟨j, k, hn', -⟩ := hp
        simp [hn] at hn'
    | oneOrMore body =>
        obtain ⟨j, hn', -⟩ := hp
        simp [hn] at hn'

/-- The second node is a child of the first. -/
def HasChild (g : Graph) (id i : Nat) : Prop :=
  ∃ node, g.nodes[id]? = some node ∧ i ∈ node.children

/-- The rules that are met below a body are referred to by the rule, directly or through others. -/
theorem InBody.owner (h : compile table tokens = .ok g) {name : String} {id i : Nat}
    (hid : g.InBody name id) (hi : Relation.ReflTransGen g.HasChild id i) :
    ∃ owner, Relation.ReflTransGen table.Refers name owner ∧ g.InBody owner i := by
  induction hi with
  | refl => exact ⟨name, .refl, hid⟩
  | @tail j k _ hc ih =>
      obtain ⟨owner, howner, hj⟩ := ih
      obtain ⟨node, hn, hk⟩ := hc
      cases hr : node.isRule with
      | false => exact ⟨owner, howner, hj.child hn hr hk⟩
      | true =>
          -- the way down goes through a rule, which owns what comes after it
          cases node with
          | composite other ids =>
              exact ⟨other, howner.tail (hj.refers h hn), .alternative hn hk⟩
          | _ => cases hr

/-- A rule of the table is met at or below the node. -/
def Meets (g : Graph) (id : Nat) (name : String) : Prop :=
  ∃ i ids, Relation.ReflTransGen g.HasChild id i ∧ g.nodes[i]? = some (.composite name ids)

theorem Meets.of_child {id i : Nat} {name : String} (h : g.Meets i name) (hc : g.HasChild id i) :
    g.Meets id name := by
  obtain ⟨j, ids, hj, hn⟩ := h
  exact ⟨j, ids, .head hc hj, hn⟩

/-- A rule that does not come back to itself is not met in its own body. -/
theorem not_meets (h : compile table tokens = .ok g) (hr : table.IsNonrecursive) {name : String}
    {id i : Nat} {ids : List Nat} (hn : g.nodes[id]? = some (.composite name ids)) (hi : i ∈ ids) :
    ¬g.Meets i name := by
  rintro ⟨j, ids', hj, hn'⟩
  obtain ⟨owner, howner, hbody⟩ := (InBody.alternative hn hi).owner h hj
  exact hr name (.trans_right howner (.single (hbody.refers h hn')))

/-! ## Counting rules -/

open Classical in
/-- The rules of the table that are met at or below a node. -/
noncomputable def rulesMet (g : Graph) (table : RuleTable) (id : Nat) : Finset String :=
  table.keys.toFinset.filter (g.Meets id)

theorem mem_rulesMet {id : Nat} {name : String} :
    name ∈ g.rulesMet table id ↔ name ∈ table.keys ∧ g.Meets id name := by
  simp [rulesMet]

theorem card_rulesMet_le (g : Graph) (table : RuleTable) (id : Nat) :
    (g.rulesMet table id).card ≤ table.entries.length := by
  calc (g.rulesMet table id).card ≤ table.keys.toFinset.card :=
        Finset.card_le_card fun _ hn => List.mem_toFinset.2 (mem_rulesMet.1 hn).1
    _ ≤ table.keys.length := List.toFinset_card_le _
    _ = table.entries.length := List.length_map ..

theorem hasHeights (h : compile table tokens = .ok g) (hr : table.IsNonrecursive) :
    g.HasHeights fun id => (g.rulesMet table id).card := by
  have sub {id i : Nat} (hc : g.HasChild id i) : g.rulesMet table i ⊆ g.rulesMet table id :=
    fun name hn => by
      obtain ⟨hk, hm⟩ := mem_rulesMet.1 hn
      exact mem_rulesMet.2 ⟨hk, hm.of_child hc⟩
  have own {id : Nat} {name : String} {ids : List Nat}
      (hn : g.nodes[id]? = some (.composite name ids)) : name ∈ g.rulesMet table id :=
    mem_rulesMet.2 ⟨OrderedTable.contains_iff_mem_keys.1
      (contains_of_rule? h (compile_composites h hn)), id, ids, .refl, hn⟩
  refine ⟨fun hn i hi => Finset.card_le_card (sub ⟨_, hn, hi⟩), fun {id name ids} hn i hi => ?_,
    fun hn => Finset.card_pos.2 ⟨_, own hn⟩⟩
  -- below a rule the rule itself is missing
  refine Finset.card_lt_card (Finset.ssubset_iff_subset_ne.2 ⟨sub ⟨_, hn, hi⟩, fun he => ?_⟩)
  exact not_meets h hr hn hi (mem_rulesMet.1 (he ▸ own hn)).2

open Machine (step)

/-- For a grammar with no more rules than the nesting limit, none of which comes back to itself, the
limit does not exist: a fresh resolver never comes to a rule with the limit used up, and matching a
rule anywhere gives the tree and the position, or the failure, and records the failures that it
gives and records with any larger limit. -/
theorem resolve_of_nonrecursive (h : compile table tokens = .ok g) (hr : table.IsNonrecursive)
    (hl : table.entries.length ≤ nestingLimit) {name : String} (hc : table.contains name)
    (input : Input) : ∃ id, g.rule? name = some id ∧
      (∀ position count, ¬((step g input)^[count] ⟨.node id position, [], .fresh⟩).IsAtLimit g) ∧
      ∀ limit, nestingLimit ≤ limit → ∀ position d,
        g.resolveWithin input limit id position d = g.resolve input id position d := by
  obtain ⟨id, hid⟩ := compile_rule? h hc
  have heights := hasHeights h hr
  have hle : (g.rulesMet table id).card ≤ nestingLimit :=
    Nat.le_trans (card_rulesMet_le g table id) hl
  refine ⟨id, hid, fun position count => ?_, fun limit hlimit position d => ?_⟩
  · have room : Machine.HasRoom (fun id => (g.rulesMet table id).card) nestingLimit
        ⟨.node id position, [], .fresh⟩ := by
      refine ⟨fun i hi => ?_, trivial⟩
      obtain rfl := List.mem_singleton.1 hi
      exact (Nat.zero_add _).trans_le hle
    exact room.not_isAtLimit heights count
  · rw [resolve, heights.resolveWithin_congr (Nat.le_trans hle hlimit) hle]

theorem resolve_of_nonrecursive_script : ∃ g, compile RuleTable.script TokenTable.script = .ok g ∧
    RuleTable.script.IsNonrecursive ∧ RuleTable.script.entries.length ≤ nestingLimit ∧
    RuleTable.script.contains "main" ∧ ∀ input, ∃ id, g.rule? "main" = some id ∧
      (∀ position count, ¬((step g input)^[count] ⟨.node id position, [], .fresh⟩).IsAtLimit g) ∧
      ∀ limit, nestingLimit ≤ limit → ∀ position d,
        g.resolveWithin input limit id position d = g.resolve input id position d := by
  have compiles : (compile RuleTable.script TokenTable.script).isOk := rfl
  match h : compile RuleTable.script TokenTable.script with
  | .error e => simp [h, Except.toBool] at compiles
  | .ok g =>
      exact ⟨g, rfl, RuleTable.script_isNonrecursive, by decide, by decide,
        resolve_of_nonrecursive h RuleTable.script_isNonrecursive (by decide) (by decide)⟩

end Graph

end NodeScript
