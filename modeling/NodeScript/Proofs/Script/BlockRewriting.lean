import NodeScript.Proofs.Script.KnobReadings
import NodeScript.Proofs.Script.NestedBlocks
import NodeScript.Proofs.Script.Rereading
import NodeScript.Proofs.Grammar.Relocation
import NodeScript.Proofs.Token.Standing

/-!
# Nested blocks survive rewriting

The text of a block is cut into the tokens it was made of, and these are a block again wherever they
stand as the value of a knob. So a script that is written with the text as a value holds the block.
-/

namespace NodeScript

namespace Descent

/-- Reading once or more stops where the second round reads nothing. -/
theorem oneOrMore_once {f : Descent} {ts rest : List Token} {t : Tree} (limit : Nat)
    (h : f ts = some (t, rest)) (hl : rest.length ≠ ts.length) (hn : f rest = none) :
    oneOrMore limit f ts = some (t.flatten, rest) := by
  have stop : rounds f limit rest = ([], rest) := by
    cases limit <;> simp [rounds, hn]
  simp [oneOrMore, h, hl, stop, Tree.flatten]

end Descent

namespace Script

variable {b limit : Nat} {ts rest taken : List Token} {v : Tree}

/-- How deep blocks and their items may be in one another: the rules around a block take the rest of
the limit on nesting. -/
def blockLimit : Nat :=
  Graph.nestingLimit - 6

theorem readNested_rootRule (limit : Nat) :
    readNested limit Graph.nestingLimit RuleTable.rootRule =
      scriptForm limit (valueForm limit (readNested limit blockLimit "block")) :=
  readNested_main limit 90

theorem suffix_of_valueForm (hl : ts.length ≤ limit)
    (h : valueForm limit (readNested limit b "block") ts = some (v, rest)) : rest <:+ ts := by
  obtain ⟨f, hf, h⟩ := List.exists_of_findSome?_eq_some h
  simp only [List.mem_cons, List.not_mem_nil, or_false] at hf
  rcases hf with rfl | rfl | rfl | rfl
  all_goals
    rw [sequence_singleton] at h
    obtain ⟨⟨t, rest⟩, hf, he⟩ := Option.map_eq_some_iff.1 h
    obtain ⟨-, rfl⟩ := Prod.mk.inj he
  · obtain ⟨_, rfl, -⟩ := (reads_animatedValue limit 0).sound hl hf
    exact List.suffix_append _ _
  · obtain ⟨_, rfl, -⟩ := (reads_multiValue limit 0).sound hl hf
    exact List.suffix_append _ _
  · obtain ⟨_, rfl, -⟩ := (reads_nested limit b).1.sound hl hf
    exact List.suffix_append _ _
  · obtain ⟨_, rfl, -⟩ := Descent.one_eq_some.1 hf
    exact List.suffix_cons _ _

/-! ## A node with a block -/

section OneNode

variable {value : Descent} {c o k cl : Token} {a : Attribute}

theorem knobsForm_knob (hcl : cl.text = "\x7d") (hne : ts ≠ [])
    (hknob : knobForm value (ts ++ [cl]) = some (.attribute a, [cl])) :
    knobsForm limit value (ts ++ [cl]) = some (.attribute a, [cl]) := by
  have stop : knobForm value [cl] = none :=
    knobForm_eq_none (not_beginsWithWord (by simp [hcl, marks]) [])
  rw [knobsForm, sequence_singleton, Descent.oneOrMore_once limit hknob (by simpa using hne) stop]
  rfl

/-- At the end of the tokens no node is read that a stack command follows. -/
theorem nodeForm_command_at_end {knobs : Descent} {t k : Tree}
    (hk : knobs (ts ++ [cl]) = some (k, [cl])) :
    nodeForm [knobs] [read limit 1 "tcl_command"] (c :: o :: (ts ++ [cl])) ≠ some (t, rest) := by
  intro h
  obtain ⟨c', o', cl', ks, cs, mid, mid', hts, -, -, hks, -, hcs, -⟩ := nodeForm_eq_some.1 h
  obtain ⟨-, -, rfl⟩ : c = c' ∧ o = o' ∧ ts ++ [cl] = mid := by simpa using hts
  obtain ⟨t', m, _, hk', hnil, -⟩ := Descent.all_cons_eq_some.1 hks
  obtain ⟨-, rfl⟩ := Descent.all_nil_eq_some.1 hnil
  obtain ⟨-, -, rfl⟩ : k = t' ∧ cl = cl' ∧ [] = mid' := by simpa [hk] using hk'
  obtain ⟨_, _, _, hcommand, -⟩ := Descent.all_cons_eq_some.1 hcs
  have none : read limit 1 "tcl_command" [] = none := rfl
  cases none.symm.trans hcommand

theorem anyNodeForm_knob (hc : isWord c) (ho : o.text = "\x7b") (hcl : cl.text = "\x7d")
    (hne : ts ≠ []) (hknob : knobForm value (ts ++ [cl]) = some (.attribute a, [cl])) :
    anyNodeForm limit value (c :: o :: (ts ++ [cl])) = some (.node ⟨c.text, [a], none⟩, []) := by
  have knobs : knobsForm limit value (ts ++ [cl]) = some (.attribute a, [cl]) :=
    knobsForm_knob hcl hne hknob
  have closes : Builder.knobsUntilClose ([.attribute a] ++ .token cl :: []) = .ok ([a], []) :=
    knobsUntilClose_knobs rfl rfl hcl []
  have made : nodeForm [knobsForm limit value] [] (c :: o :: (ts ++ [cl])) =
      some (.list [.token c, .token o, .attribute a, .token cl], []) :=
    nodeForm_eq_some.2 ⟨c, o, cl, [.attribute a], [], _, [], rfl, hc, ho,
      by simp [Descent.all, knobs], hcl, rfl, rfl⟩
  rw [anyNodeForm, Descent.rule_cons_eq_some, Descent.rule_cons_eq_some]
  exact .inr ⟨fun _ _ h => absurd h (nodeForm_command_at_end knobs),
    .inl ⟨_, made, buildNode_eq_ok ho closes⟩⟩

/-- A word and one knob in braces are a script of one node. -/
theorem scriptForm_knob (hc : isWord c) (ho : o.text = "\x7b") (hcl : cl.text = "\x7d")
    (hne : ts ≠ []) (hknob : knobForm value (ts ++ [cl]) = some (.attribute a, [cl])) :
    scriptForm limit value (c :: o :: (ts ++ [cl])) = some (.node ⟨c.text, [a], none⟩, []) := by
  have statement : statementForm limit value (c :: o :: (ts ++ [cl])) =
      some (.node ⟨c.text, [a], none⟩, []) := by
    rw [statementForm, sequence_singleton]
    simp [Descent.alternation, anyNodeForm_knob hc ho hcl hne hknob, Tree.flatten]
  have stop : statementForm limit value [] = none := rfl
  rw [scriptForm, sequence_singleton, Descent.oneOrMore_once limit statement (by simp) stop]
  rfl

theorem knobForm_block (hk : isWord k) (h : IsBlockValue b taken)
    (hl : (taken ++ rest).length ≤ limit) :
    knobForm (valueForm limit (readNested limit b "block")) (k :: (taken ++ rest)) =
      some (.attribute ⟨k.text, .block (Builder.joinBlock (taken.map Token.text))⟩, rest) := by
  obtain ⟨v, hread, hv⟩ := valueForm_complete limit h hl
  rw [knobForm_cons hk, hread]
  simp only [Option.bind_some, Builder.buildAttribute, Tree.items, hv]
  rfl

end OneNode

end Script

/-! ## Writing blocks -/

section Writing

open TokenTable Script

variable {className name block : String} {ks : List (String × String)}

/-- A token of a kind, at no place. -/
def Token.ofKind (kind : String × String) : Token :=
  ⟨kind.1, kind.2, none, ⟨0, 0⟩⟩

/-- The tokens of a node with one knob, around those of the value. -/
def tokensAround (className name : String) (value : List Token) : List Token :=
  .ofKind (wordKind className) :: .ofKind ("OPEN_BRACE", "\x7b") ::
    (.ofKind (wordKind name) :: value ++ [.ofKind ("CLOSE_BRACE", "\x7d")])

theorem read_tokensAround {taken : List Token} (h : IsBlockValue blockLimit taken)
    (hc : IsName className) (hn : IsName name) :
    readNested (tokensAround className name taken).length Graph.nestingLimit
        RuleTable.rootRule (tokensAround className name taken) =
      some (.node ⟨className, [⟨name, .block (Builder.joinBlock (taken.map Token.text))⟩], none⟩,
        []) := by
  rw [readNested_rootRule]
  refine scriptForm_knob (isWord_of_wordKind hc rfl) rfl rfl (List.cons_ne_nil _ _)
    (knobForm_block (isWord_of_wordKind hn rfl) h ?_)
  simp only [tokensAround, List.length_cons, List.length_append]
  omega

/-- The tokens of a written node with a block are those of the block and of what is around it. -/
theorem kinds?_renderScript_block (hc : IsName className) (hn : IsName name)
    (hb : Spells block.toList (some ks)) :
    script.kinds? (Node.renderScript [⟨className, [⟨name, .block block⟩], none⟩]).toList =
      some (wordKind className :: ("OPEN_BRACE", "\x7b") :: wordKind name ::
        (ks ++ [("CLOSE_BRACE", "\x7d")])) := by
  have close := (spells_nil.blank (x := '\n') (by decide)).mark filter_closeBrace
  have value := (hb.append (stops_cons (by decide) _) (close.blank (x := '\n') (by decide))).blank
    (x := ' ') (by decide)
  have knob := (hn.spells.append (stops_cons (by decide) _) value).blank (x := ' ') (by decide)
  have inside := ((knob.blank (x := '\n') (by decide)).mark filter_openBrace).blank (x := ' ')
    (by decide)
  have node := (hc.spells.append (stops_cons (by decide) _) inside).kinds?
  simpa [Node.renderScript, Node.render, Node.render.renderAttribute, Value.render] using node

end Writing

namespace ScriptParser

open Script TokenTable

variable {q : ScriptParser} {text block : String} {nodes : List Node}

/-- A block among the values of a script is made of tokens that stand and are a block. -/
theorem IsNested.exists_block (hq : q.IsNested) (h : q.parse text = .ok nodes) {n : Node}
    (hn : n ∈ nodes) {a : Attribute} (ha : a ∈ n.attributes) (hv : a.value = .block block) :
    ∃ taken, IsBlockValue blockLimit taken ∧ (∀ k ∈ taken.map Token.kind, Stands k) ∧
      block = Builder.joinBlock (taken.map Token.text) := by
  obtain ⟨ts, hts, t, ht, rfl⟩ := parse_eq_ok_iff.1 h
  have hne : ts ≠ [] := by
    rintro rfl
    obtain rfl : Tree.list [] = t := Except.ok.inj ht
    cases hn
  rw [resolveTokens_eq_ok_iff hq.compiled hq.root hne, hq.builders, ← readNested,
    readNested_rootRule] at ht
  obtain ⟨mid, v, rest, hs, hread, hval⟩ :=
    isReadIn_of_scriptForm suffix_of_valueForm (Nat.le_refl _) ht n hn a ha
  rw [hv] at hval
  obtain ⟨taken, rfl, hb, rfl⟩ := valueForm_sound ts.length hs.length_le hread hval
  refine ⟨taken, hb, fun k hk => ?_, rfl⟩
  have kinds : script.kinds? text.toList = some (ts.map Token.kind) := by
    rw [tokenize, hq.tokens] at hts
    exact kinds?_eq_some_iff.2 ⟨ts, hts, rfl⟩
  have inside : taken ⊆ ts := fun t ht => hs.subset (List.mem_append_left rest ht)
  exact stands_of_kinds? kinds k (List.map_subset _ inside hk)

/-- Such tokens are what the text of a block is read as. -/
theorem IsNested.parse_block (hq : q.IsNested) {taken : List Token}
    (hb : IsBlockValue blockLimit taken) (hs : ∀ k ∈ taken.map Token.kind, Stands k)
    {className name : String} (hc : IsName className) (hn : IsName name) {node : Node}
    (hnode : node =
      ⟨className, [⟨name, .block (Builder.joinBlock (taken.map Token.text))⟩], none⟩) :
    q.parse (Node.renderScript [node]) = .ok [node] := by
  have spells : Spells (Builder.joinBlock (taken.map Token.text)).toList
      (some (taken.map Token.kind)) := by
    have spells := spells_joinBlock hs
    rwa [List.map_map] at spells
  obtain ⟨ts, hts, hkinds⟩ := kinds?_eq_some_iff.1 (kinds?_renderScript_block hc hn spells)
  -- tokens of the same kinds do, so those of the block need not be found in the new text
  have same : ts.map Token.kind = (tokensAround className name taken).map Token.kind := by
    rw [hkinds]
    simp [tokensAround, Token.ofKind, Token.kind]
  have ignores : q.builders.IgnoresPlaces := hq.builders ▸ BuilderTable.ignoresPlaces_standard
  have nonempty : tokensAround className name taken ≠ [] := List.cons_ne_nil _ _
  rw [parse_eq_ok_iff, tokenize, hq.tokens, hnode]
  refine ⟨ts, hts, (nodes_of_kinds ignores same).2 ⟨.node _, ?_, rfl⟩⟩
  rw [resolveTokens_eq_ok_iff hq.compiled hq.root nonempty, hq.builders]
  exact read_tokensAround hb hc hn

/-- Blocks survive rewriting. Whatever block the parser with nested blocks finds among the values of
a text, a script of one node with the text of the block as the value of its only knob is read as
that node, with the same block. -/
theorem nested_parse_renderScript_block : ∃ q, nested = .ok q ∧ ∀ text nodes,
    q.parse text = .ok nodes → ∀ n ∈ nodes, ∀ a ∈ n.attributes, ∀ block,
      a.value = .block block → ∀ className name, IsName className → IsName name →
        q.parse (Node.renderScript [⟨className, [⟨name, .block block⟩], none⟩]) =
          .ok [⟨className, [⟨name, .block block⟩], none⟩] := by
  obtain ⟨q, hq, hnested⟩ := nested_isNested
  refine ⟨q, hq, fun text nodes h n hn a ha block hv className name hc hname => ?_⟩
  obtain ⟨taken, hb, hs, rfl⟩ := hnested.exists_block h hn ha hv
  exact hnested.parse_block hb hs hc hname rfl

/-- A text with a block that is written without blanks, over two lines and with a comment. -/
def looseText : String :=
  "A\x7ba\x7b\x7b1.5\"\x7d\"\x7d# gone\n-2\x7d\x7d"

theorem nested_parse_renderScript_block_loose : ∃ q, nested = .ok q ∧
    q.parse looseText = .ok [⟨"A", [⟨"a", .block "\x7b\x7b1.5 \"\x7d\"\x7d -2\x7d"⟩], none⟩] ∧
    IsName "Roto" ∧ IsName "curves" ∧
    q.parse (Node.renderScript
        [⟨"Roto", [⟨"curves", .block "\x7b\x7b1.5 \"\x7d\"\x7d -2\x7d"⟩], none⟩]) =
      .ok [⟨"Roto", [⟨"curves", .block "\x7b\x7b1.5 \"\x7d\"\x7d -2\x7d"⟩], none⟩] := by
  obtain ⟨q, hq, h⟩ := nested_parse_renderScript_block
  obtain ⟨q', hq', hn⟩ := nested_isNested
  obtain rfl := Except.ok.inj (hq.symm.trans hq')
  have parsed : q.parse looseText =
      .ok [⟨"A", [⟨"a", .block "\x7b\x7b1.5 \"\x7d\"\x7d -2\x7d"⟩], none⟩] := by
    rw [← parseWithin_nestingLimit, hn.parseWithin_eq_ok_iff]
    decide +kernel
  have roto : IsName "Roto" := (isIdentifier_of rfl rfl rfl).isName
  have curves : IsName "curves" := (isIdentifier_of rfl rfl rfl).isName
  exact ⟨q, hq, parsed, roto, curves, h looseText _ parsed _ List.mem_cons_self _
    List.mem_cons_self _ rfl "Roto" "curves" roto curves⟩

end ScriptParser

end NodeScript
