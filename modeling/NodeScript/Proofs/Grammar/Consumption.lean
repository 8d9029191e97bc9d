import NodeScript.Proofs.Grammar.Derivations
import NodeScript.Proofs.Token.Table
import NodeScript.Script.Parser

/-!
# Trees hold the tokens they are made of

Without builders the tree of a node has the tokens that were taken, each once and in order
(`Yields.tokens`), and so the tree of a script has all its significant tokens.
-/

namespace NodeScript

@[simp] theorem BuilderTable.build_empty (rule : String) (t : Tree) :
    BuilderTable.empty.build rule t = .ok t :=
  rfl

namespace Graph

variable {g : Graph} {input : Input}

mutual

theorem Yields.tokens {id position next : Nat} {t : Tree} (h : Yields g input id position t next)
    (hb : input.builders = .empty) (hp : position ≤ input.tokens.size) :
    t.tokens = input.between position next := by
  match h with
  | .rule _ _ h hbuilt =>
      rw [hb, BuilderTable.build_empty, Except.ok.injEq] at hbuilt
      rw [← hbuilt]
      exact h.tokens hb hp
  | .sequence _ h => simp [h.tokens hb hp]
  | .left _ h => exact h.tokens hb hp
  | .right _ h => exact h.tokens hb hp
  | .repetition _ _ h => simp [h.tokens hb hp]
  | .literal _ ht _ => simp [Input.between_one ht]
  | .terminal _ ht _ => simp [Input.between_one ht]

theorem YieldsAll.tokens {ids : List Nat} {position next : Nat} {ts : List Tree}
    (h : YieldsAll g input ids position ts next) (hb : input.builders = .empty)
    (hp : position ≤ input.tokens.size) :
    ts.flatMap Tree.tokens = input.between position next := by
  match h with
  | .nil => simp [Input.between_self]
  | .cons h hs =>
      obtain ⟨hle, hmid⟩ := h.bounds hp
      rw [List.flatMap_cons, h.tokens hb hp, hs.tokens hb hmid,
        Input.between_append hle (hs.bounds hmid).1]

end

/-- Without builders, a success ends between where it began and the end of the tokens, and its tree
has the tokens that were taken. -/
theorem resolveWithin_tokens (g : Graph) (tokens : Array Token) (limit id : Nat)
    {position next : Nat} {d : Diagnostics} {t : Tree} (hp : position ≤ tokens.size)
    (h : (g.resolveWithin ⟨tokens, .empty⟩ limit id position d).1 = .ok (t, next)) :
    position ≤ next ∧ next ≤ tokens.size ∧ t.tokens = (tokens.extract position next).toList := by
  have hy := resolveWithin_yields g ⟨tokens, .empty⟩ limit id h
  obtain ⟨hle, hend⟩ := hy.bounds hp
  exact ⟨hle, hend, hy.tokens rfl hp⟩

end Graph

namespace ScriptParser

open NodeScript.Graph (leaf)

theorem tokens_of_resolveTokensWithin {p : ScriptParser} (hb : p.builders = .empty) {limit : Nat}
    {tokens : Array Token} {t : Tree} (h : p.resolveTokensWithin limit tokens = .ok t) :
    t.tokens = tokens.toList := by
  unfold resolveTokensWithin at h
  by_cases he : tokens.isEmpty
  · obtain rfl : Tree.list [] = t := by simpa [he] using h
    simpa using he
  · simp only [he, Bool.false_eq_true, if_false, hb] at h
    match hm : p.graph.resolveWithin ⟨tokens, .empty⟩ limit p.root 0 .empty with
    | (.error f, d) => simp [hm] at h
    | (.ok (t', next), d) =>
        obtain ⟨hend, rfl⟩ : next = tokens.size ∧ t' = t := by
          by_cases hend : next = tokens.size <;> simp_all
        have ht := Graph.resolveWithin_tokens p.graph tokens limit p.root (Nat.zero_le _)
          (by rw [hm])
        simpa [hend] using ht.2.2

/-- No token is lost, doubled or moved where no builder folds them away: the tree of a node has just
the tokens that were taken, and the tree of a text just its significant tokens. -/
theorem tokens_of_empty_builders :
    (∀ (g : Graph) (tokens : Array Token) (id position next : Nat) (d : Diagnostics) (t : Tree),
      position ≤ tokens.size → (g.resolve ⟨tokens, .empty⟩ id position d).1 = .ok (t, next) →
      position ≤ next ∧ next ≤ tokens.size ∧
        t.tokens = (tokens.extract position next).toList) ∧
    ∀ (p : ScriptParser) (text : String) (t : Tree), p.builders = .empty →
      p.resolve text = .ok t → p.tokenize text = .ok t.tokens := by
  constructor
  · intro g tokens id position next d t hp h
    exact g.resolveWithin_tokens tokens Graph.nestingLimit id hp h
  · intro p text t hb h
    unfold resolve at h
    match hts : p.tokenize text with
    | .error e => simp [hts] at h
    | .ok ts =>
        simp only [hts] at h
        match hr : p.resolveTokens ts.toArray with
        | .error e => simp [hr, Except.mapError] at h
        | .ok t' =>
            obtain rfl : t' = t := by simpa [hr, Except.mapError] using h
            rw [tokens_of_resolveTokensWithin hb hr]

/-- The parser of rows of leaves, without builders. -/
def rowsParser : ScriptParser :=
  ⟨.script, Graph.rowsGraph, .empty, 0⟩

theorem tokens_of_empty_builders_rows :
    ((Graph.rowsGraph.resolve ⟨#[leaf, leaf], .empty⟩ 0 0 .empty).1 =
        .ok (.list [.token leaf, .token leaf], 2) ∧
      0 ≤ 2 ∧ 2 ≤ 2 ∧ (Tree.list [.token leaf, .token leaf]).tokens = [leaf, leaf]) ∧
    ∃ t, rowsParser.resolve "x x # a row" = .ok t ∧
      rowsParser.tokenize "x x # a row" = .ok t.tokens := by
  obtain ⟨ofNode, ofText⟩ := tokens_of_empty_builders
  have resolves : (rowsParser.resolve "x x # a row").isOk := by decide +kernel
  have matched : (Graph.rowsGraph.resolve ⟨#[leaf, leaf], .empty⟩ 0 0 .empty).1 =
      .ok (.list [.token leaf, .token leaf], 2) := rfl
  refine ⟨⟨matched, ofNode Graph.rowsGraph _ 0 0 2 .empty _ (Nat.zero_le _) matched⟩, ?_⟩
  match h : rowsParser.resolve "x x # a row" with
  | .error e => simp [h, Except.isOk, Except.toBool] at resolves
  | .ok t => exact ⟨t, rfl, ofText _ _ t rfl h⟩

end ScriptParser

end NodeScript
