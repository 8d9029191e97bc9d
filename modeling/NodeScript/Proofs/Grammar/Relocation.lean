import Mathlib.Data.List.Forall2
import NodeScript.Proofs.Token.Lexing
import NodeScript.Proofs.Tree.Unplaced
import NodeScript.Script.Parser

/-!
# Matching does not depend on places

Where no builder looks at places, tokens that differ only in their places and tags are matched
alike: the trees are the same but for the places, and failures are at the same positions, the
furthest of them included. Only what the failures say can differ, since a builder may show a token
with its place.
-/

namespace NodeScript

namespace Input

/-- The input with nothing but the names and texts of its tokens. -/
def unplaced (input : Input) : Input :=
  ⟨input.tokens.map Token.unplaced, input.builders⟩

theorem getElem?_unplaced (input : Input) (position : Nat) :
    input.unplaced.tokens[position]? = input.tokens[position]?.map Token.unplaced :=
  Array.getElem?_map

theorem size_unplaced (input : Input) : input.unplaced.tokens.size = input.tokens.size :=
  Array.size_map

end Input

/-- What matching gives, with the diagnostics, and what it gives without places. -/
inductive Match.SameOutcome : Outcome × Diagnostics → Outcome × Diagnostics → Prop
  | success {t : Tree} {next : Nat} {d d' : Diagnostics} (hd : d'.furthest = d.furthest) :
    SameOutcome (.ok (t, next), d) (.ok (t.unplaced, next), d')
  | failure {f f' : Failure} {d d' : Diagnostics} (hf : f'.position = f.position)
    (hd : d'.furthest = d.furthest) : SameOutcome (.error f, d) (.error f', d')

/-- The second match does without places what the first does with them. -/
def Match.Unplaces (m m' : Match) : Prop :=
  ∀ ⦃position d d'⦄, d'.furthest = d.furthest → SameOutcome (m position d) (m' position d')

theorem Diagnostics.furthest_record {d d' : Diagnostics} {f f' : Failure}
    (hd : d'.furthest = d.furthest) (hf : f'.position = f.position) :
    (d'.record f').furthest = (d.record f).furthest := by
  simp only [record, hd, hf]

namespace Match

variable {input : Input}

theorem unplaces_fail (expected : String) :
    Unplaces (fail input expected) (fail input.unplaced expected) :=
  fun _ _ _ hd => .failure rfl hd

theorem unplaces_one (expected : String) {test : Token → Bool}
    (h : ∀ t, test t.unplaced = test t) :
    Unplaces (one input expected test) (one input.unplaced expected test) := by
  intro position d d' hd
  unfold one
  rw [Input.getElem?_unplaced]
  match input.tokens[position]? with
  | none => exact .failure rfl hd
  | some t =>
      simp only [Option.map_some, h]
      by_cases ht : test t
      · simpa [ht] using .success hd
      · simpa [ht] using .failure rfl hd

theorem unplaces_sequence {items items' : List Match} (h : List.Forall₂ Unplaces items items')
    (done : List Tree) :
    Unplaces (sequence done items) (sequence (done.map Tree.unplaced) items') := by
  intro position d d' hd
  induction h generalizing done position d d' with
  | nil =>
      simp only [sequence]
      rw [← List.map_reverse, ← Tree.unplaced_list, ← Tree.unplaced_flatten]
      exact .success hd
  | @cons m m' items items' hm _ ih =>
      simp only [sequence]
      match m position d, m' position d', hm hd with
      | _, _, .success hd => exact ih (_ :: done) hd
      | _, _, .failure hf hd => exact .failure hf hd

theorem unplaces_alternation {l l' r r' : Match} (hl : Unplaces l l') (hr : Unplaces r r') :
    Unplaces (alternation l r) (alternation l' r') := by
  intro position d d' hd
  simp only [alternation]
  match l position d, l' position d', hl hd with
  | _, _, .success hd => exact .success hd
  | _, _, .failure hf hd => exact hr (Diagnostics.furthest_record hd hf)

theorem unplaces_further {item item' : Match} (h : Unplaces item item') (rounds : Nat)
    (done : List Tree) :
    Unplaces (further item rounds done) (further item' rounds (done.map Tree.unplaced)) := by
  have stop (done : List Tree) : (Tree.list (done.map Tree.unplaced).reverse).flatten =
      (Tree.list done.reverse).flatten.unplaced := by
    rw [← List.map_reverse, ← Tree.unplaced_list, Tree.unplaced_flatten]
  intro position d d' hd
  induction rounds generalizing done position d d' with
  | zero =>
      simp only [further, stop]
      exact .success hd
  | succ rounds ih =>
      simp only [further]
      have hs : SameOutcome (item position d) (item' position d') := h hd
      generalize item position d = r, item' position d' = r' at hs ⊢
      cases hs with
      | @success t next _ _ hd =>
          by_cases hn : next = position
          · simp only [hn, if_true, ← List.map_cons, stop]
            exact .success hd
          · simp only [hn, if_false]
            exact ih (t :: done) hd
      | failure hf hd =>
          simp only [stop]
          exact .success (Diagnostics.furthest_record hd hf)

theorem unplaces_oneOrMore {item item' : Match} (h : Unplaces item item') (rounds : Nat) :
    Unplaces (oneOrMore rounds item) (oneOrMore rounds item') := by
  intro position d d' hd
  simp only [oneOrMore]
  have hs : SameOutcome (item position d) (item' position d') := h hd
  generalize item position d = r, item' position d' = r' at hs ⊢
  cases hs with
  | @success t next _ _ hd =>
      by_cases hn : next = position
      · simp only [hn, if_true, ← Tree.unplaced_flatten]
        exact .success hd
      · simp only [hn, if_false]
        exact unplaces_further h rounds [t] hd
  | failure hf hd => exact .failure hf hd

theorem unplaces_rule (hb : input.builders.IgnoresPlaces) (name : String)
    {alternatives alternatives' : List Match}
    (h : List.Forall₂ Unplaces alternatives alternatives') :
    Unplaces (rule input name alternatives) (rule input.unplaced name alternatives') := by
  intro position d d' hd
  induction h generalizing d d' with
  | nil => exact .failure rfl hd
  | @cons m m' alternatives alternatives' hm _ ih =>
      simp only [rule]
      match m position d, m' position d', hm hd with
      | _, _, .failure hf hd => exact ih (Diagnostics.furthest_record hd hf)
      | (.ok (t, next), _), _, .success hd =>
          -- a builder refuses both trees or neither
          have hb := hb.build name t
          simp only
          match input.builders.build name t, input.unplaced.builders.build name t.unplaced, hb with
          | .ok built, .ok built', hb =>
              obtain rfl : built' = built.unplaced := by simpa [Except.toOption] using hb
              exact .success hd
          | .error _, .error _, _ => exact ih (Diagnostics.furthest_record hd rfl)

end Match

namespace Graph

open Match (Unplaces)

variable {input : Input}

theorem walk_unplaces (g : Graph) {enter enter' : String → List Nat → Match}
    (he : ∀ name alternatives, Unplaces (enter name alternatives) (enter' name alternatives))
    (limit id : Nat) :
    Unplaces (g.walk input enter limit id) (g.walk input.unplaced enter' limit id) := by
  induction limit generalizing id with
  | zero => exact Match.unplaces_fail _
  | succ limit ih =>
      unfold walk
      match g.nodes[id]? with
      | none => exact Match.unplaces_fail _
      | some (.composite name alternatives) => exact he name alternatives
      | some (.sequence items) =>
          refine Match.unplaces_sequence ?_ []
          exact List.forall₂_map_left_iff.2 (List.forall₂_map_right_iff.2
            (List.forall₂_same.2 fun id _ => ih id))
      | some (.alternation i j) => exact Match.unplaces_alternation (ih i) (ih j)
      | some (.repetition item) =>
          rw [Input.size_unplaced]
          exact Match.unplaces_oneOrMore (ih item) _
      | some (.literal text) => exact Match.unplaces_one _ fun _ => rfl
      | some (.terminal name row) => exact Match.unplaces_one _ fun _ => rfl

/-- Matching a node gives the same without the places of the tokens. -/
theorem resolveWithin_unplaces (g : Graph) (hb : input.builders.IgnoresPlaces) (limit id : Nat) :
    Unplaces (g.resolveWithin input limit id) (g.resolveWithin input.unplaced limit id) := by
  induction limit generalizing id with
  | zero => exact g.walk_unplaces (fun _ _ => Match.unplaces_fail _) _ _
  | succ limit ih =>
      refine g.walk_unplaces (fun name alternatives => Match.unplaces_rule hb name ?_) _ _
      exact List.forall₂_map_left_iff.2 (List.forall₂_map_right_iff.2
        (List.forall₂_same.2 fun id _ => ih id))

end Graph

/-! ## Parsing tokens -/

theorem Token.preview_unplaced (ts : List Token) (limit : Nat) :
    preview (ts.map unplaced) limit = preview ts limit := by
  have texts (ts : List Token) : (ts.map unplaced).map text = ts.map text := by
    simp [Function.comp_def]
  simp only [preview, ← List.map_take, ← List.map_drop, texts, List.isEmpty_map]

theorem Input.previewAt_unplaced (input : Input) (position : Nat) :
    input.unplaced.previewAt position = input.previewAt position := by
  simp only [previewAt, unplaced, ← Array.map_extract, Array.toList_map, Token.preview_unplaced]

namespace ScriptParser

/-- What parsing gives, and what it gives without places. -/
inductive SameParse : Except ParseError Tree → Except ParseError Tree → Prop
  | success (t : Tree) : SameParse (.ok t) (.ok t.unplaced)
  | failure {e e' : ParseError} (hp : e'.position = e.position) (ht : e'.total = e.total)
    (hu : e'.unconsumed = e.unconsumed) : SameParse (.error e) (.error e')

variable {p : ScriptParser}

/-- Parsing tokens does not depend on their places. -/
theorem resolveTokensWithin_unplaced (hb : p.builders.IgnoresPlaces) (limit : Nat)
    (tokens : Array Token) :
    SameParse (p.resolveTokensWithin limit tokens)
      (p.resolveTokensWithin limit (tokens.map Token.unplaced)) := by
  have empty : (tokens.map Token.unplaced).isEmpty = tokens.isEmpty := by
    simp only [Array.isEmpty, Array.size_map]
  have preview (position : Nat) : Input.previewAt ⟨tokens.map Token.unplaced, p.builders⟩ position =
      Input.previewAt ⟨tokens, p.builders⟩ position :=
    Input.previewAt_unplaced ⟨tokens, p.builders⟩ position
  unfold resolveTokensWithin
  rw [empty, Array.size_map]
  by_cases he : tokens.isEmpty
  · simp only [he, if_true]
    exact .success (.list [])
  · simp only [he, Bool.false_eq_true, if_false]
    have same : Match.SameOutcome
        (p.graph.resolveWithin ⟨tokens, p.builders⟩ limit p.root 0 .empty)
        (p.graph.resolveWithin ⟨tokens.map Token.unplaced, p.builders⟩ limit p.root 0 .empty) :=
      p.graph.resolveWithin_unplaces hb limit p.root rfl
    generalize p.graph.resolveWithin ⟨tokens, p.builders⟩ limit p.root 0 .empty = out at same ⊢
    generalize p.graph.resolveWithin ⟨tokens.map Token.unplaced, p.builders⟩ limit p.root 0
      .empty = out' at same ⊢
    cases same with
    | @success t next d d' hd =>
        by_cases hn : next = tokens.size
        · simp only [hn, if_true]
          exact .success t
        · simp only [hn, if_false]
          exact .failure rfl rfl (preview next)
    | failure hf hd =>
        have hfurthest := Diagnostics.furthest_record hd hf
        exact .failure hfurthest rfl (hfurthest ▸ preview _)

/-- Tokens of the same kinds differ in nothing but their places and tags. -/
theorem unplaced_of_kinds {ts ts' : List Token} (h : ts'.map Token.kind = ts.map Token.kind) :
    ts'.map Token.unplaced = ts.map Token.unplaced := by
  have ofKind (ts : List Token) :
      ts.map Token.unplaced = (ts.map Token.kind).map fun k => ⟨k.1, k.2, none, ⟨0, 0⟩⟩ := by
    simp only [List.map_map]
    rfl
  rw [ofKind, ofKind, h]

/-- Tokens of the same kinds are parsed to the same nodes, wherever they stand. -/
theorem nodes_of_kinds (hb : p.builders.IgnoresPlaces) {ts ts' : List Token}
    (h : ts'.map Token.kind = ts.map Token.kind)
    {nodes : List Node} : (∃ t, p.resolveTokens ts'.toArray = .ok t ∧ t.nodes = nodes) ↔
      ∃ t, p.resolveTokens ts.toArray = .ok t ∧ t.nodes = nodes := by
  have unplaced (ts : List Token) :
      (∃ t, p.resolveTokens (ts.map Token.unplaced).toArray = .ok t ∧ t.nodes = nodes) ↔
        ∃ t, p.resolveTokens ts.toArray = .ok t ∧ t.nodes = nodes := by
    have same := resolveTokensWithin_unplaced hb Graph.nestingLimit ts.toArray
    rw [List.map_toArray] at same
    unfold resolveTokens
    generalize p.resolveTokensWithin _ ts.toArray = out at same ⊢
    generalize p.resolveTokensWithin _ (ts.map Token.unplaced).toArray = out' at same ⊢
    cases same with
    | success t => simp [Tree.nodes_unplaced]
    | failure => simp
  rw [← unplaced ts', ← unplaced ts, unplaced_of_kinds h]

end ScriptParser

end NodeScript
