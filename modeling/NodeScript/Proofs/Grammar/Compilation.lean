import NodeScript.Proofs.Grammar.Drafts
import NodeScript.Proofs.OrderedTable

/-!
# What compilation makes

Each step of compilation only adds to the draft, and the node that it gives stands for what it was
asked to compile. So in a compiled graph every rule of the table is defined as the table has it.
-/

namespace NodeScript.Graph

open Draft (Sound Grows)

variable {table : RuleTable} {tokens : TokenTable} {d d' : Draft}

/-- The names of the table's rules that have no node yet. -/
def Draft.unopened (table : RuleTable) (d : Draft) : List String :=
  table.keys.filter fun name => (d.graph.rule? name).isNone

theorem unopened_length_le (h : Extends d.graph d'.graph) :
    (d'.unopened table).length ≤ (d.unopened table).length := by
  refine (List.monotone_filter_right _ fun name hn => ?_).length_le
  cases hs : d.graph.rule? name with
  | none => rfl
  | some id => simp [h.rules hs] at hn

/-- Compiling a rule, wherever at most `limit` rules have no node yet, grows the draft and gives the
rule's node. -/
def CompilesRule (table : RuleTable) (tokens : TokenTable) (limit : Nat)
    (rule : String → Compile Nat) : Prop :=
  ∀ ⦃name d id d'⦄, table.contains name → d.Sound tokens → (d.unopened table).length ≤ limit →
    rule name d = .ok (id, d') → Grows table tokens d d' ∧ d'.graph.rule? name = some id

variable {rule : String → Compile Nat} {limit : Nat} {owner : String}

theorem symbol_grows (hr : CompilesRule table tokens limit rule) (hs : d.Sound tokens)
    (hl : (d.unopened table).length ≤ limit) {name : String} {id : Nat}
    (h : compileOperand table tokens rule (.symbol name) d = .ok (id, d')) :
    Grows table tokens d d' ∧ d'.graph.Denotes tokens (table.symbolPhrase name) id := by
  unfold RuleTable.symbolPhrase
  by_cases hc : table.contains name
  · simp only [compileOperand, hc, if_true] at h ⊢
    exact hr hc hs hl h
  · simp only [compileOperand, hc] at h ⊢
    obtain ⟨rfl, rfl⟩ : (d.terminal tokens name).1 = id ∧ (d.terminal tokens name).2 = d' := by
      simpa [Prod.ext_iff] using h
    exact Draft.terminal_grows hs name

theorem denoted_lt_size (hs : d.Sound tokens) {phrases : List Phrase} {ids : List Nat}
    (h : List.Forall₂ (d.graph.Denotes tokens) phrases ids) : ∀ i ∈ ids, i < d.nodes.size := by
  induction h with
  | nil => simp
  | cons hp _ ih => exact List.forall_mem_cons.2 ⟨hs.lt_size hp, ih⟩

/-- Compiling parts, after items that stand for phrases already, gives a sequence of the phrases
that the items and the parts make. -/
def CompilesParts (table : RuleTable) (tokens : TokenTable) (limit : Nat)
    (rule : String → Compile Nat) (owner : String) (parts : Alternative) : Prop :=
  ∀ ⦃phrases items pending d id d'⦄, d.Sound tokens → (d.unopened table).length ≤ limit →
    List.Forall₂ (d.graph.Denotes tokens) phrases items →
    compileParts table tokens rule owner items pending parts d = .ok (id, d') →
    Grows table tokens d d' ∧ ∃ out ids, table.phrasesFrom? phrases pending parts = some out ∧
      d'.graph.nodes[id]? = some (.sequence ids) ∧
      List.Forall₂ (d'.graph.Denotes tokens) out ids ∧ ∀ i ∈ ids, i < id

/-- Going on with the parts after one step that has grown the draft. -/
theorem CompilesParts.after {parts : Alternative}
    (h : CompilesParts table tokens limit rule owner parts) {d₁ : Draft} {phrases : List Phrase}
    {items : List Nat} {pending : Bool} {id : Nat} (hg : Grows table tokens d d₁)
    (hl : (d.unopened table).length ≤ limit)
    (hd : List.Forall₂ (d₁.graph.Denotes tokens) phrases items)
    (hc : compileParts table tokens rule owner items pending parts d₁ = .ok (id, d')) :
    Grows table tokens d d' ∧ ∃ out ids, table.phrasesFrom? phrases pending parts = some out ∧
      d'.graph.nodes[id]? = some (.sequence ids) ∧
      List.Forall₂ (d'.graph.Denotes tokens) out ids ∧ ∀ i ∈ ids, i < id := by
  obtain ⟨hg', hout⟩ := h hg.sound (Nat.le_trans (unopened_length_le hg.keep) hl) hd hc
  exact ⟨hg.trans hg', hout⟩

/-- Going on with the parts after an operand. -/
theorem CompilesParts.attach {parts : Alternative}
    (h : CompilesParts table tokens limit rule owner parts) {d₁ : Draft} {phrases : List Phrase}
    {items : List Nat} {pending : Bool} {operand : Phrase} {i id : Nat}
    (hg : Grows table tokens d d₁) (hl : (d.unopened table).length ≤ limit)
    (hd : List.Forall₂ (d.graph.Denotes tokens) phrases items)
    (ho : d₁.graph.Denotes tokens operand i)
    (hc : (match pending, items with
      | true, left :: items =>
        let (id, d) := d₁.push (.alternation left i)
        compileParts table tokens rule owner (id :: items) false parts d
      | _, items => compileParts table tokens rule owner (i :: items) false parts d₁) =
        .ok (id, d')) :
    Grows table tokens d d' ∧ ∃ out ids,
      table.phrasesFrom? (RuleTable.attach phrases pending operand) false parts = some out ∧
      d'.graph.nodes[id]? = some (.sequence ids) ∧
      List.Forall₂ (d'.graph.Denotes tokens) out ids ∧ ∀ i ∈ ids, i < id := by
  have hd₁ := hd.imp fun _ _ hp => hp.keep hg.keep.keeps
  -- only after an `|` does the operand join the item before it
  match pending, phrases, items, hd₁, hc with
  | false, _, _, hd₁, hc => exact h.after hg hl (.cons ho hd₁) hc
  | true, [], [], hd₁, hc => exact h.after hg hl (.cons ho hd₁) hc
  | true, left :: before, j :: items, .cons hj hd₁, hc =>
      have hp := Draft.push_grows table hg.sound (.alternation j i) (by simp)
      have keep := hp.keep.keeps
      refine h.after (hg.trans hp) hl (.cons ?_ (hd₁.imp fun _ _ hp => hp.keep keep)) hc
      exact ⟨j, i, Draft.push_node _ _, hg.sound.lt_size hj, hg.sound.lt_size ho, hj.keep keep,
        ho.keep keep⟩

theorem compileParts_compiles (hr : CompilesRule table tokens limit rule) :
    ∀ parts, CompilesParts table tokens limit rule owner parts
  | [] => by
      intro phrases items pending d id d' hs _ hd h
      cases pending with
      | true => simp [compileParts] at h
      | false =>
          obtain ⟨rfl, rfl⟩ : (d.push (.sequence items.reverse)).1 = id ∧
              (d.push (.sequence items.reverse)).2 = d' := by
            simpa [compileParts, Prod.ext_iff] using h
          refine ⟨Draft.push_grows table hs _ (by simp), phrases.reverse, items.reverse, rfl,
            Draft.push_node _ _, ?_, ?_⟩
          · exact List.forall₂_reverse_iff.2 (hd.imp fun _ _ hp =>
              hp.keep (Draft.push_extends d _).keeps)
          · exact fun i hi => denoted_lt_size hs hd i (List.mem_reverse.1 hi)
  | .oneOrMore :: rest => by
      intro phrases items pending d id d' hs hl hd h
      match phrases, items, hd, h with
      | [], [], _, h => simp [compileParts] at h
      | latest :: before, j :: items, .cons hj hd, h =>
          cases pending with
          | true => simp [compileParts] at h
          | false =>
              have hp := Draft.push_grows table hs (.repetition j) (by simp)
              have keep := hp.keep.keeps
              refine (compileParts_compiles hr rest).after hp hl (.cons ?_ (hd.imp fun _ _ hp =>
                hp.keep keep)) h
              exact ⟨j, Draft.push_node _ _, hs.lt_size hj, hj.keep keep⟩
  | .or :: rest => by
      intro phrases items pending d id d' hs hl hd h
      have he : phrases.isEmpty = items.isEmpty := by cases hd <;> rfl
      by_cases hb : pending || items.isEmpty
      · simp [compileParts, hb] at h
      · simp only [compileParts, hb, RuleTable.phrasesFrom?, he] at h ⊢
        exact (compileParts_compiles hr rest) hs hl hd h
  | .symbol name :: rest => by
      intro phrases items pending d id d' hs hl hd h
      simp only [compileParts] at h
      split at h
      · cases h
      · rename_i i d₁ ho
        obtain ⟨hg, hn⟩ := symbol_grows hr hs hl ho
        exact (compileParts_compiles hr rest).attach hg hl hd hn h
  | .literal text :: rest => by
      intro phrases items pending d id d' hs hl hd h
      simp only [compileParts, compileOperand] at h
      obtain ⟨hg, hn⟩ := Draft.literal_grows table hs text
      exact (compileParts_compiles hr rest).attach hg hl hd hn h

theorem compileAlternatives_grows (hr : CompilesRule table tokens limit rule) :
    ∀ {alternatives d ids d'}, d.Sound tokens → (d.unopened table).length ≤ limit →
    compileAlternatives table tokens rule owner alternatives d = .ok (ids, d') →
    Grows table tokens d d' ∧
      List.Forall₂ (d'.graph.DenotesParts table tokens) alternatives ids
  | [], d, ids, d', hs, _, h => by
      obtain ⟨rfl, rfl⟩ : [] = ids ∧ d = d' := by simpa [compileAlternatives] using h
      exact ⟨.refl hs, .nil⟩
  | parts :: rest, d, ids, d', hs, hl, h => by
      simp only [compileAlternatives] at h
      split at h
      · cases h
      · rename_i id d₁ hp
        split at h
        · cases h
        · rename_i others d₂ ha
          obtain ⟨rfl, rfl⟩ : id :: others = ids ∧ d₂ = d' := by simpa using h
          obtain ⟨hg, out, items, hout⟩ := compileParts_compiles hr parts hs hl .nil hp
          obtain ⟨hg', hds⟩ :=
            compileAlternatives_grows hr hg.sound (Nat.le_trans (unopened_length_le hg.keep) hl) ha
          have hd : d₁.graph.DenotesParts table tokens parts id := ⟨out, items, hout⟩
          exact ⟨hg.trans hg', .cons (hd.keep hg'.keep.keeps) hds⟩

/-! ## Rules -/

theorem openRule_extends (name : String) (d : Draft) :
    Extends d.graph (d.openRule name).2.graph := by
  refine ⟨(Draft.push_extends d (.composite name [])).nodes, fun {name' id} hs => ?_⟩
  have hs' : d.rules.lookup name' = some id := hs
  simp [Draft.openRule, Draft.push, Draft.graph, rule?, List.lookup_append, hs']

theorem openRule_node (name : String) (d : Draft) :
    (d.openRule name).2.nodes[d.nodes.size]? = some (.composite name []) :=
  Draft.push_node d (.composite name [])

theorem openRule_rule? (d : Draft) {name : String} (h : d.graph.rule? name = none)
    (name' : String) : (d.openRule name).2.graph.rule? name' =
      if name' = name then some d.nodes.size else d.graph.rule? name' := by
  simp only [Draft.openRule, Draft.push, Draft.graph, rule?, List.lookup_append] at h ⊢
  by_cases he : name' = name
  · simp [he, h]
  · simp [he, List.lookup_cons, beq_false_of_ne he]

theorem Draft.Sound.openRule (hs : d.Sound tokens) {name : String}
    (h : d.graph.rule? name = none) : (d.openRule name).2.Sound tokens where
  terminals hl := (hs.terminals hl).keep (openRule_extends name d).keeps
  literals hl := (hs.literals hl).keep (openRule_extends name d).keeps
  rules {name' id} hl := by
    rw [openRule_rule? d h] at hl
    split at hl
    · rename_i he
      obtain rfl : _ = id := by simpa using hl
      exact ⟨[], he ▸ openRule_node name d⟩
    · exact (hs.rules hl).imp fun _ => (openRule_extends name d).nodes
  composites {id name' ids} hn := by
    rw [openRule_rule? d h]
    by_cases hid : id = d.nodes.size
    · subst hid
      obtain ⟨rfl, -⟩ : name = name' ∧ [] = ids := by
        simpa [openRule_node] using hn
      simp
    · have hn : d.nodes[id]? = some (.composite name' ids) := by
        simpa [Draft.openRule, Draft.push, Array.getElem?_push, hid] using hn
      have hr := hs.composites hn
      rw [if_neg, hr]
      rintro rfl
      rw [h] at hr
      cases hr

/-- Opening a rule of the table leaves fewer that have no node. -/
theorem unopened_openRule {name : String} (hn : d.graph.rule? name = none)
    (hc : table.contains name) :
    ((d.openRule name).2.unopened table).length < (d.unopened table).length := by
  have sub : (d.openRule name).2.unopened table =
      (d.unopened table).filter (fun other => other != name) := by
    simp only [Draft.unopened, List.filter_filter]
    refine List.filter_congr fun other _ => ?_
    rw [openRule_rule? d hn]
    by_cases he : other = name <;> simp [he]
  rw [sub]
  refine List.length_filter_lt_length_iff_exists.2 ⟨name, ?_, by simp⟩
  simp [Draft.unopened, OrderedTable.contains_iff_mem_keys.1 hc, hn]

/-- Filling in the alternatives of a rule that is still open touches no other node. -/
theorem closeRule_keeps {name : String} {id : Nat} (ids : List Nat)
    (ho : d.nodes[id]? = some (.composite name [])) :
    Keeps d.graph (d.closeRule name id ids).graph := by
  refine ⟨fun {i node} hn hc => ?_, fun hs => hs⟩
  have hi : id ≠ i := by
    rintro rfl
    exact hc _ _ (Option.some.inj (hn.symm.trans ho))
  simpa [Draft.closeRule, Draft.graph, hi] using hn

theorem closeRule_node {name : String} {id : Nat} (ids : List Nat)
    (ho : d.nodes[id]? = some (.composite name [])) (i : Nat) :
    (d.closeRule name id ids).nodes[i]? =
      if id = i then some (.composite name ids) else d.nodes[i]? := by
  have hid : id < d.nodes.size := (Array.getElem?_eq_some_iff.1 ho).1
  simp only [Draft.closeRule, Array.getElem?_setIfInBounds]
  by_cases he : id = i
  · simp [he, he ▸ hid]
  · simp [he]

theorem Draft.Sound.closeRule (hs : d.Sound tokens) {name : String} {id : Nat} (ids : List Nat)
    (ho : d.nodes[id]? = some (.composite name [])) : (d.closeRule name id ids).Sound tokens where
  terminals hl := (hs.terminals hl).keep (closeRule_keeps ids ho)
  literals hl := (hs.literals hl).keep (closeRule_keeps ids ho)
  rules {other i} hl := by
    obtain ⟨others, hc⟩ := hs.rules hl
    rw [closeRule_node ids ho i]
    by_cases he : id = i
    · subst he
      obtain ⟨rfl, rfl⟩ : name = other ∧ [] = others := by simpa [ho] using hc
      exact ⟨ids, by simp⟩
    · exact ⟨others, by simpa [he] using hc⟩
  composites {i other others} hn := by
    rw [closeRule_node ids ho i] at hn
    split at hn
    · rename_i he
      obtain ⟨rfl, -⟩ : name = other ∧ _ := by simpa using hn
      exact he ▸ hs.composites ho
    · exact hs.composites hn

/-- Closing a rule leaves all as it was before the rule was opened. -/
theorem closeRule_extends {name : String} (ids : List Nat)
    (h : Extends (d.openRule name).2.graph d'.graph) :
    Extends d.graph (d'.closeRule name d.nodes.size ids).graph where
  nodes {i n} hi := by
    have hlt : i < d.nodes.size := (Array.getElem?_eq_some_iff.1 hi).1
    refine (closeRule_node ids (h.nodes (openRule_node name d)) i).trans ?_
    rw [if_neg (Nat.ne_of_gt hlt)]
    exact h.nodes ((openRule_extends name d).nodes hi)
  rules hr := h.rules ((openRule_extends name d).rules hr)

/-- A draft that has grown from an opened rule, once that rule is closed, has grown from the draft
before the rule was opened. -/
theorem closeRule_grows {name : String} {ids : List Nat} (hn : d.graph.rule? name = none)
    (hc : table.contains name) (hg : Grows table tokens (d.openRule name).2 d')
    (ha : List.Forall₂ (d'.graph.DenotesParts table tokens) ((table.get? name).getD []) ids) :
    Grows table tokens d (d'.closeRule name d.nodes.size ids) := by
  have ho : d'.nodes[d.nodes.size]? = some (.composite name []) :=
    hg.keep.nodes (openRule_node name d)
  have keep := closeRule_keeps ids ho
  have node := closeRule_node ids ho
  refine ⟨closeRule_extends ids hg.keep, hg.sound.closeRule ids ho, fun {other id} hm hs => ?_,
    fun {other id} hm hs => ?_⟩
  · by_cases he : other = name
    · exact he ▸ hc
    · exact hg.contains (by rw [openRule_rule? d hn, if_neg he, hm]) hs
  · have hs' : d'.graph.rule? other = some id := hs
    by_cases he : other = name
    · -- the rule itself is what has been filled in
      subst he
      obtain rfl : d.nodes.size = id := by
        simpa [hg.keep.rules ((openRule_rule? d hn other).trans (if_pos rfl))] using hs'
      exact ⟨ids, (node _).trans (if_pos rfl), ha.imp fun _ _ hp => hp.keep keep⟩
    · have hd := hg.defines (by rw [openRule_rule? d hn, if_neg he, hm]) hs'
      refine hd.keep keep ((node id).trans (if_neg ?_))
      rintro rfl
      obtain ⟨_, hc, _⟩ := hd
      obtain ⟨rfl, _⟩ : name = other ∧ _ := by simpa [ho, Draft.graph] using hc
      exact he rfl

theorem compileRule_of_known {name : String} {id : Nat} (h : d.graph.rule? name = some id) :
    compileRule table tokens limit name d = .ok (id, d) := by
  have h' : d.rules.lookup name = some id := h
  cases limit <;> simp [compileRule, h']

theorem compileRule_compiles (limit : Nat) :
    CompilesRule table tokens limit (compileRule table tokens limit) := by
  induction limit with
  | zero =>
      intro name d id d' hc hs hl h
      cases hn : d.graph.rule? name with
      | some known =>
          obtain ⟨rfl, rfl⟩ : known = id ∧ d = d' := by simpa [compileRule_of_known hn] using h
          exact ⟨.refl hs, hn⟩
      | none =>
          have := unopened_openRule hn hc
          omega
  | succ limit ih =>
      intro name d id d' hc hs hl h
      cases hn : d.graph.rule? name with
      | some known =>
          obtain ⟨rfl, rfl⟩ : known = id ∧ d = d' := by simpa [compileRule_of_known hn] using h
          exact ⟨.refl hs, hn⟩
      | none =>
          have hn' : d.rules.lookup name = none := hn
          -- the rule has its node while its alternatives are compiled, so the bound goes down
          have fewer := unopened_openRule hn hc
          simp only [compileRule, hn'] at h
          split at h
          · cases h
          · rename_i ids d₁ ha
            obtain ⟨rfl, rfl⟩ : (d.openRule name).1 = id ∧
                d₁.closeRule name (d.openRule name).1 ids = d' := by
              simpa using h
            obtain ⟨hg, hds⟩ := compileAlternatives_grows ih (hs.openRule hn) (by omega) ha
            refine ⟨closeRule_grows hn hc hg hds, hg.keep.rules ?_⟩
            exact (openRule_rule? d hn name).trans (if_pos rfl)

theorem compileRules_grows {limit : Nat} : ∀ {names d d'}, (∀ name ∈ names, table.contains name) →
    d.Sound tokens → (d.unopened table).length ≤ limit →
    compileRules table tokens limit names d = .ok d' →
    Grows table tokens d d' ∧ ∀ name ∈ names, ∃ id, d'.graph.rule? name = some id
  | [], d, d', _, hs, _, h => by
      obtain rfl : d = d' := by simpa [compileRules] using h
      exact ⟨.refl hs, by simp⟩
  | name :: rest, d, d', hc, hs, hl, h => by
      simp only [compileRules] at h
      split at h
      · cases h
      · rename_i id d₁ hr
        obtain ⟨hc₁, hcs⟩ := List.forall_mem_cons.1 hc
        obtain ⟨hg, hid⟩ := compileRule_compiles limit hc₁ hs hl hr
        obtain ⟨hg', hids⟩ :=
          compileRules_grows hcs hg.sound (Nat.le_trans (unopened_length_le hg.keep) hl) h
        exact ⟨hg.trans hg', List.forall_mem_cons.2 ⟨⟨id, hg'.keep.rules hid⟩, hids⟩⟩

theorem unopened_empty_length_le (table : RuleTable) :
    (Draft.empty.unopened table).length ≤ table.entries.length := by
  simpa [Draft.unopened, OrderedTable.keys] using
    List.length_filter_le _ (table.entries.map Prod.fst)

theorem compile_grows {g : Graph} (h : compile table tokens = .ok g) : ∃ d : Draft, d.graph = g ∧
    Grows table tokens .empty d ∧ ∀ name, table.contains name → ∃ id, g.rule? name = some id := by
  unfold compile at h
  split at h
  · cases h
  · rename_i d hd
    obtain rfl : d.graph = g := by simpa [Draft.graph] using h
    obtain ⟨hg, hids⟩ := compileRules_grows (fun _ => OrderedTable.contains_iff_mem_keys.2)
      Sound.empty (unopened_empty_length_le table) hd
    exact ⟨d, rfl, hg, fun name hc => hids name (OrderedTable.contains_iff_mem_keys.1 hc)⟩

/-- Every rule of the table has a node in the compiled graph. -/
theorem compile_rule? {g : Graph} (h : compile table tokens = .ok g) {name : String}
    (hc : table.contains name) : ∃ id, g.rule? name = some id := by
  obtain ⟨_, _, _, hids⟩ := compile_grows h
  exact hids name hc

/-- In a compiled graph every rule is defined as the table has it. -/
theorem compile_defines {g : Graph} (h : compile table tokens = .ok g) {name : String} {id : Nat}
    (hid : g.rule? name = some id) : g.Defines table tokens name id := by
  obtain ⟨_, rfl, hg, _⟩ := compile_grows h
  exact hg.defines rfl hid

/-- A compiled graph has no rules but those of the table. -/
theorem contains_of_rule? {g : Graph} (h : compile table tokens = .ok g) {name : String} {id : Nat}
    (hid : g.rule? name = some id) : table.contains name := by
  obtain ⟨_, rfl, hg, _⟩ := compile_grows h
  exact hg.contains rfl hid

/-- In a compiled graph every rule's node is the one that its name is given. -/
theorem compile_composites {g : Graph} (h : compile table tokens = .ok g) {name : String} {id : Nat}
    {ids : List Nat} (hn : g.nodes[id]? = some (.composite name ids)) : g.rule? name = some id := by
  obtain ⟨_, rfl, hg, _⟩ := compile_grows h
  exact hg.sound.composites hn

theorem rule?_lt_size {g : Graph} (h : compile table tokens = .ok g) {name : String} {id : Nat}
    (hid : g.rule? name = some id) : id < g.nodes.size := by
  obtain ⟨ids, hn, -⟩ := compile_defines h hid
  exact (Array.getElem?_eq_some_iff.1 hn).1

/-- In a compiled graph every rule's node has the alternatives of the table. -/
theorem alternatives_of_composite {g : Graph} (h : compile table tokens = .ok g) {name : String}
    {id : Nat} {ids : List Nat} (hn : g.nodes[id]? = some (.composite name ids)) :
    List.Forall₂ (g.DenotesParts table tokens) ((table.get? name).getD []) ids := by
  obtain ⟨ids', hn', hds⟩ := compile_defines h (compile_composites h hn)
  obtain rfl : ids = ids' := by simpa [hn] using hn'
  exact hds

end NodeScript.Graph
