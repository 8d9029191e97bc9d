import NodeScript.Proofs.Grammar.Pieces
import NodeScript.Proofs.Script.Parsing
import NodeScript.Proofs.Token.Chain

/-!
# Blocks and what they lose

A block is the text of the tokens that are left of the value of a knob. Values of channels, curves,
knobs and nodes that a grammar allows inside the value have been folded before, and tokens of theirs
are gone: so a block has all tokens of its value exactly when nothing in it was folded that loses
one (`blocks_of_parse`).
-/

namespace NodeScript

namespace Builder

/-! ## The text of a block -/

/-- How much stands between two neighbouring texts of a block. -/
def gap (before after : String) : Nat :=
  if isTight before after then 0 else 1

/-- How much longer texts make a block that ends in a text. -/
def widthAfter (before : String) : List String → Nat
  | [] => 0
  | text :: rest => gap before text + text.length + widthAfter text rest

theorem length_joinBlock (text : String) (rest : List String) :
    (joinBlock (text :: rest)).length = text.length + widthAfter text rest := by
  induction rest generalizing text with
  | nil => rfl
  | cons next rest ih =>
      have between : (if isTight text next then "" else " ").length = gap text next := by
        unfold gap
        split <;> rfl
      rw [joinBlock, String.length_append, String.length_append, ih, between, widthAfter]
      omega

/-- Where there is no space on either side of a text, there is none without it. -/
theorem isTight_trans {before text after : String} (h : isTight before text)
    (h' : isTight text after) : isTight before after := by
  simp only [isTight, Bool.or_eq_true, beq_iff_eq] at h h' ⊢
  grind

theorem gap_lt {before text after : String} (h : text ≠ "") :
    gap before after < gap before text + text.length + gap text after := by
  have pos : 0 < text.length := Nat.pos_of_ne_zero (mt String.length_eq_zero_iff.1 h)
  have tight := @isTight_trans before text after
  simp only [gap]
  grind

theorem widthAfter_lt {before text : String} (h : text ≠ "") (rest : List String) :
    widthAfter before rest < widthAfter before (text :: rest) := by
  cases rest with
  | nil => exact Nat.add_pos_left (Nat.add_pos_right _ (Nat.pos_of_ne_zero
      (mt String.length_eq_zero_iff.1 h))) _
  | cons next rest =>
      have := @gap_lt before text next h
      simp only [widthAfter]
      omega

/-- A block that has lost texts is shorter. -/
theorem widthAfter_sublist {ks ts : List String} (h : ks.Sublist ts) (hne : "" ∉ ts)
    (before : String) : ks = ts ∨ widthAfter before ks < widthAfter before ts := by
  induction h generalizing before with
  | slnil => exact .inl rfl
  | @cons ks ts text hs ih =>
      obtain ⟨ht, hne⟩ := not_or.1 (mt List.mem_cons.2 hne)
      have shorter := @widthAfter_lt before text (Ne.symm ht) ts
      rcases ih hne before with rfl | hlt
      · exact .inr shorter
      · exact .inr (Nat.lt_trans hlt shorter)
  | @cons_cons ks ts text hs ih =>
      obtain ⟨-, hne⟩ := not_or.1 (mt List.mem_cons.2 hne)
      rcases ih hne text with rfl | hlt
      · exact .inl rfl
      · exact .inr (by simpa [widthAfter] using hlt)

theorem joinBlock_sublist {ks ts : List String} (h : ks.Sublist ts) (hne : "" ∉ ts) :
    joinBlock ks = joinBlock ts ↔ ks = ts := by
  have width (ts : List String) : (joinBlock ts).length = widthAfter "\x7b" ts := by
    cases ts with
    | nil => rfl
    | cons text rest =>
      rw [length_joinBlock, widthAfter]
      simp [gap, isTight]
  refine ⟨fun he => ?_, congrArg joinBlock⟩
  rcases widthAfter_sublist h hne "\x7b" with heq | hlt
  · exact heq
  · rw [← width, ← width, he] at hlt
    exact absurd hlt (Nat.lt_irrefl _)

theorem valueOf_eq_block {t : Tree} {block : String} (h : valueOf t = .ok (.block block)) :
    block = joinBlock (t.tokens.map Token.text) := by
  match t with
  | .list items =>
      obtain ⟨⟩ := Value.block.inj (Except.ok.inj h)
      rfl
  | .token t => cases hc : t.cast <;> simp [valueOf, hc, Except.map, Except.mapError] at h
  | .channels ts =>
      cases hc : castAll ts <;>
        simp [valueOf, hc, Except.map, Except.mapError] at h
  | .curve ps =>
      cases hc : castPairs ps <;>
        simp [valueOf, hc, Except.map, Except.mapError] at h
  | .attribute _ | .node _ => cases h

end Builder

namespace Piece

open Builder (joinBlock)

/-- A block is the text of what is kept of the value of a knob. -/
theorem block_eq {body : Piece} {a : Attribute} {block : String}
    (h : (rule "knob" body).tree .standard = .ok (.attribute a)) (hv : a.value = .block block) :
    ∃ name value, body.Pairs name value ∧ name.text = a.name ∧
      block = joinBlock (value.kept.map Token.text) := by
  obtain ⟨inner, hinner, hb⟩ := tree_rule_eq_ok.1 h
  obtain ⟨name, t, v, hitems, hvalue, ⟨⟩⟩ := Builder.buildAttribute_eq_ok hb
  obtain rfl : inner = .list [.token name, t] := by
    cases inner with
    | list items => exact congrArg _ hitems
    | _ => cases hitems
  obtain ⟨n, value, hpart, htokens, hn, ht⟩ := exists_pair body hinner
  have hname := tokens_of_tree_token n hn
  refine ⟨name, value, ⟨⟨n, hname, hpart⟩, by rw [htokens, hname]; rfl⟩, rfl, ?_⟩
  rw [← tokens_of_tree value ht]
  exact Builder.valueOf_eq_block (hvalue.trans (congrArg _ hv))

end Piece

namespace ScriptParser

open Builder (joinBlock)
open Piece (IsKnobIn)

variable {p : ScriptParser} {text : String} {nodes : List Node}

/-- The piece has the tokens of the text, the grammar takes them so, and the builders make the nodes
of it. -/
structure Reads (p : ScriptParser) (text : String) (nodes : List Node) (piece : Piece) : Prop where
  tokens : p.tokenize text = .ok piece.tokens
  takes : piece.tokens ≠ [] → p.graph.Takes p.root piece
  nodes : ∃ t, piece.tree p.builders = .ok t ∧ t.nodes = nodes

theorem exists_piece_of_resolveTokens {ts : List Token} {t : Tree}
    (h : p.resolveTokens ts.toArray = .ok t) : ∃ piece : Piece, piece.tokens = ts ∧
      (ts ≠ [] → p.graph.Takes p.root piece) ∧ piece.tree p.builders = .ok t := by
  by_cases hne : ts = []
  · subst hne
    obtain rfl : Tree.list [] = t := Except.ok.inj h
    exact ⟨.list [], rfl, fun h => absurd rfl h, rfl⟩
  · unfold resolveTokens resolveTokensWithin at h
    have he : ts.toArray.isEmpty = false := by simpa using hne
    simp only [he, Bool.false_eq_true, if_false] at h
    match hm :
      p.graph.resolveWithin ⟨ts.toArray, p.builders⟩ Graph.nestingLimit p.root 0 .empty with
    | (.error f, d) => simp [hm] at h
    | (.ok (t', next), d) =>
        obtain ⟨rfl, rfl⟩ : next = ts.toArray.size ∧ t' = t := by
          by_cases hend : next = ts.toArray.size <;> simp_all
        have yields := Graph.resolveWithin_yields p.graph ⟨ts.toArray, p.builders⟩
          Graph.nestingLimit p.root (congrArg Prod.fst hm)
        obtain ⟨piece, htakes, htokens, htree⟩ := yields.exists_piece (Nat.zero_le _)
        exact ⟨piece, by simpa [Input.between] using htokens, fun _ => htakes, htree⟩

theorem exists_reads (h : p.parse text = .ok nodes) : ∃ piece, p.Reads text nodes piece := by
  obtain ⟨ts, hts, t, ht, hnodes⟩ := parse_eq_ok_iff.1 h
  obtain ⟨piece, rfl, htakes, htree⟩ := exists_piece_of_resolveTokens ht
  exact ⟨piece, hts, htakes, t, htree, hnodes⟩

theorem text_ne_empty_of_tokenizeFrom {table : TokenTable} {taken position : Nat}
    {cs : List Char} {ts : List Token} (h : table.tokenizeFrom taken position cs = .ok ts) :
    ∀ t ∈ ts, t.text ≠ "" := by
  induction cs generalizing taken position ts with
  | nil =>
      obtain rfl := Except.ok.inj h
      simp
  | cons c cs ih =>
      unfold TokenTable.tokenizeFrom at h
      split at h
      · exact ih h
      · split at h
        · cases h
        · rename_i row matched hrow
          obtain ⟨more, hmore, h⟩ := bind_eq_ok_iff.1 h
          obtain rfl := Except.ok.inj h
          refine List.forall_mem_append.2 ⟨fun t ht => ?_, ih hmore⟩
          obtain ⟨tag, -, rfl⟩ := Option.map_eq_some_iff.1 (Option.mem_toList.1 ht)
          have taken := (TokenTable.firstScan?_eq_some_iff.1 hrow).ne_nil
          exact fun he => taken (String.ofList_eq_empty_iff.1 he)

theorem text_ne_empty_of_tokenize {ts : List Token} (h : p.tokenize text = .ok ts) :
    ∀ t ∈ ts, t.text ≠ "" := by
  unfold tokenize at h
  obtain ⟨all, ha, rfl⟩ := map_eq_ok_iff.1 h
  exact fun t ht => text_ne_empty_of_tokenizeFrom ha t (List.mem_of_mem_filter ht)

/-- Whatever grammar a text is read by, a block is the text of the tokens that folding has left of
the value of its knob, without a gap or a change. It has all tokens of the value, in order and none
missing, exactly when no value of channels, curve, knob or node was folded in it that loses some. -/
theorem blocks_of_parse (hb : p.builders = .standard) (h : p.parse text = .ok nodes) :
    (∃ piece, p.Reads text nodes piece) ∧ ∀ piece, p.Reads text nodes piece →
      (∀ n ∈ nodes, ∀ a ∈ n.attributes, ∃ body, IsKnobIn body piece a) ∧
      ∀ body a block, IsKnobIn body piece a → a.value = .block block →
        ∃ name value, body.Pairs name value ∧ name.text = a.name ∧
          block = joinBlock (value.kept.map Token.text) ∧
          (block = joinBlock (value.tokens.map Token.text) ↔ value.IsWhole) := by
  refine ⟨exists_reads h, fun piece hp => ⟨fun n hn a ha => ?_, fun body a block hk hv => ?_⟩⟩
  · obtain ⟨t, ht, rfl⟩ := hp.nodes
    rw [hb] at ht
    obtain ⟨body, hpart, htree⟩ := Piece.exists_knob_of_node ht hn ha
    exact ⟨body, hpart, htree⟩
  · obtain ⟨name, value, hpairs, hname, hblock⟩ := Piece.block_eq hk.tree hv
    refine ⟨name, value, hpairs, hname, hblock, ?_⟩
    have full : "" ∉ value.tokens.map Token.text := by
      intro hm
      obtain ⟨t, ht, htext⟩ := List.mem_map.1 hm
      have inside : t ∈ body.tokens := by
        rw [hpairs.tokens]
        exact List.mem_cons_of_mem name ht
      exact text_ne_empty_of_tokenize hp.tokens t (hk.isPart.tokens_subset inside) htext
    rw [hblock, Builder.joinBlock_sublist (value.kept_sublist.map _) full,
      ← value.kept_eq_tokens_iff]
    refine ⟨fun he => value.kept_sublist.eq_of_length ?_, congrArg _⟩
    simpa using congrArg List.length he

/-- A grammar text for two values of channels in brackets. -/
def bracketsText : String :=
  "knob_value ::= \"[\" multi_value multi_value \"]\"\n"

/-- The rule of `bracketsText`. -/
def brackets : RuleTable :=
  ⟨[("knob_value", [[.literal "[", .symbol "multi_value", .symbol "multi_value", .literal "]"]])]⟩

theorem read_bracketsText : RuleTable.read bracketsText = .ok brackets :=
  RuleTable.eq_ok_of_entries (by decide)

theorem layerTexts_brackets :
    layerTexts OrderedTable.empty [RuleTable.scriptText, bracketsText] =
      .ok (RuleTable.script.layer brackets) := by
  rw [layerTexts, RuleTable.read_scriptText]
  simp only [RuleTable.layer_script]
  rw [layerTexts, read_bracketsText]
  rfl

def bracketsScript : String :=
  "A \x7b a [ \x7b1 2\x7d \x7b3 4\x7d ] \x7d"

/-- The braces of the two values are gone. -/
def bracketsNode : Node :=
  ⟨"A", [⟨"a", .block "[1 2 3 4]"⟩], none⟩

/-- The nodes that the rules of a table read in the tokens of a text. -/
def nodesBy? (table : RuleTable) (text : String) : Option (List Node) :=
  (TokenTable.script.tokenize text).toOption.bind fun ts =>
    let ts := Token.significant ts
    (table.descend .script .standard ts.length Graph.nestingLimit RuleTable.rootRule ts).bind
      fun taken => if ts ≠ [] ∧ taken.2 = [] then some taken.1.nodes else none

theorem parse_of_nodesBy? {table : RuleTable} (ht : p.tokens = .script)
    (hg : Graph.compile table .script = .ok p.graph) (hb : p.builders = .standard)
    (hroot : p.graph.rule? RuleTable.rootRule = some p.root)
    (h : nodesBy? table text = some nodes) : p.parse text = .ok nodes := by
  obtain ⟨ts, hts, h⟩ := Option.bind_eq_some_iff.1 h
  obtain ⟨⟨t, rest⟩, hread, h⟩ := Option.bind_eq_some_iff.1 h
  obtain ⟨⟨hne, rfl⟩, hnodes⟩ := Option.ite_none_right_eq_some.1 h
  have tokens : p.tokenize text = .ok (Token.significant ts) := by
    rw [tokenize, ht, toOption_eq_some_iff.1 hts]
    rfl
  refine parse_eq_ok_iff.2 ⟨_, tokens, t, ?_, Option.some.inj hnodes⟩
  rw [resolveTokens_eq_ok_iff hg hroot hne, hb]
  exact hread

theorem isOk_compile_brackets :
    (Graph.compile (RuleTable.script.layer brackets) TokenTable.script).isOk := by
  decide

theorem contains_rootRule_brackets :
    (RuleTable.script.layer brackets).contains RuleTable.rootRule := by
  decide

theorem exists_bracketsParser : ∃ p, ofTexts TokenTable.shippedText
      [RuleTable.scriptText, bracketsText] RuleTable.rootRule .standard = .ok p ∧
    p.builders = .standard ∧ p.parse bracketsScript = .ok [bracketsNode] := by
  match hg : Graph.compile (RuleTable.script.layer brackets) TokenTable.script with
  | .error e =>
      have := isOk_compile_brackets
      simp [hg, Except.isOk, Except.toBool] at this
  | .ok graph =>
      obtain ⟨id, hid⟩ := Graph.compile_rule? hg contains_rootRule_brackets
      exact ⟨⟨.script, graph, .standard, id⟩,
        ofTexts_eq_ok TokenTable.shipped_eq layerTexts_brackets hg hid, rfl,
        parse_of_nodesBy? rfl hg rfl hid (by decide +kernel)⟩

theorem blocks_of_parse_brackets : ∃ p, ofTexts TokenTable.shippedText
      [RuleTable.scriptText, bracketsText] RuleTable.rootRule .standard = .ok p ∧
    p.builders = .standard ∧ p.parse bracketsScript = .ok [bracketsNode] ∧
    ∃ piece body name value, p.Reads bracketsScript [bracketsNode] piece ∧
      IsKnobIn body piece ⟨"a", .block "[1 2 3 4]"⟩ ∧ body.Pairs name value ∧
      "[1 2 3 4]" = joinBlock (value.kept.map Token.text) ∧
      ("[1 2 3 4]" = joinBlock (value.tokens.map Token.text) ↔ value.IsWhole) := by
  obtain ⟨p, hp, hb, parsed⟩ := exists_bracketsParser
  obtain ⟨⟨piece, hr⟩, holds⟩ := blocks_of_parse hb parsed
  obtain ⟨knobs, blocks⟩ := holds piece hr
  obtain ⟨body, hk⟩ := knobs _ List.mem_cons_self _ List.mem_cons_self
  obtain ⟨name, value, hpairs, -, hblock⟩ := blocks body _ _ hk rfl
  exact ⟨p, hp, hb, parsed, piece, body, name, value, hr, hk, hpairs, hblock⟩

end ScriptParser

end NodeScript
