import NodeScript.Proofs.Grammar.DirectReading
import NodeScript.Proofs.Grammar.Successes

/-!
# Successes are derivations

A graph read as a context-free grammar: alternatives and choices in no order, and nothing of
builders, of a limit on nesting or of a loop that stops. What matching a node has taken is a word
that the node derives in this sense (`resolveWithin_derives`).
-/

namespace NodeScript.Graph

mutual

/-- The node derives a word of tokens. -/
inductive Derives (g : Graph) : Nat → List Token → Prop
  | rule {id alternative : Nat} {name : String} {alternatives : List Nat} {ts : List Token} :
    g.nodes[id]? = some (.composite name alternatives) → alternative ∈ alternatives →
    Derives g alternative ts → Derives g id ts
  | sequence {id : Nat} {items : List Nat} {ts : List Token} :
    g.nodes[id]? = some (.sequence items) → DerivesAll g items ts → Derives g id ts
  | left {id i j : Nat} {ts : List Token} :
    g.nodes[id]? = some (.alternation i j) → Derives g i ts → Derives g id ts
  | right {id i j : Nat} {ts : List Token} :
    g.nodes[id]? = some (.alternation i j) → Derives g j ts → Derives g id ts
  | once {id item : Nat} {ts : List Token} :
    g.nodes[id]? = some (.repetition item) → Derives g item ts → Derives g id ts
  | more {id item : Nat} {ts us : List Token} :
    g.nodes[id]? = some (.repetition item) → Derives g item ts → Derives g id us →
    Derives g id (ts ++ us)
  | literal {id : Nat} {text : String} {t : Token} :
    g.nodes[id]? = some (.literal text) → t.text = text → Derives g id [t]
  | terminal {id : Nat} {name : String} {row : TokenRow} {t : Token} :
    g.nodes[id]? = some (.terminal name (some row)) → row.accepts t.text → Derives g id [t]

/-- The nodes in turn derive a word. -/
inductive DerivesAll (g : Graph) : List Nat → List Token → Prop
  | nil : DerivesAll g [] []
  | cons {id : Nat} {ids : List Nat} {ts us : List Token} :
    Derives g id ts → DerivesAll g ids us → DerivesAll g (id :: ids) (ts ++ us)

end

variable {g : Graph} {input : Input}

theorem DerivesAll.repetition {id item further : Nat} {ts : List Token}
    (hn : g.nodes[id]? = some (.repetition item))
    (h : DerivesAll g (List.replicate (further + 1) item) ts) : Derives g id ts := by
  induction further generalizing ts with
  | zero =>
      obtain _ | ⟨hi, ⟨⟩⟩ := h
      rw [List.append_nil]
      exact .once hn hi
  | succ further ih =>
      obtain _ | ⟨hi, hrest⟩ := h
      exact .more hn hi (ih hrest)

mutual

theorem Yields.derives {id position next : Nat} {t : Tree} (h : Yields g input id position t next)
    (hp : position ≤ input.tokens.size) : Derives g id (input.between position next) := by
  match h with
  | .rule hn ha h _ => exact .rule hn ha (h.derives hp)
  | .sequence hn h => exact .sequence hn (h.derives hp)
  | .left hn h => exact .left hn (h.derives hp)
  | .right hn h => exact .right hn (h.derives hp)
  | .repetition _ hn h => exact (h.derives hp).repetition hn
  | .literal hn ht htext =>
      rw [Input.between_one ht]
      exact .literal hn htext
  | .terminal hn ht hrow =>
      rw [Input.between_one ht]
      exact .terminal hn hrow

theorem YieldsAll.derives {ids : List Nat} {position next : Nat} {ts : List Tree}
    (h : YieldsAll g input ids position ts next) (hp : position ≤ input.tokens.size) :
    DerivesAll g ids (input.between position next) := by
  match h with
  | .nil =>
      rw [Input.between_self]
      exact .nil
  | .cons h hs =>
      obtain ⟨hle, hmid⟩ := h.bounds hp
      rw [← Input.between_append hle (hs.bounds hmid).1]
      exact .cons (h.derives hp) (hs.derives hmid)

end

/-- When matching a node succeeds, it ends between where it began and the end of the tokens, and the
node derives the tokens that were taken. -/
theorem resolveWithin_derives (g : Graph) (input : Input) (limit id : Nat) {position next : Nat}
    {d : Diagnostics} {t : Tree} (hp : position ≤ input.tokens.size)
    (h : (g.resolveWithin input limit id position d).1 = .ok (t, next)) :
    position ≤ next ∧ next ≤ input.tokens.size ∧
      g.Derives id (input.between position next) := by
  have hy := resolveWithin_yields g input limit id h
  obtain ⟨hle, hend⟩ := hy.bounds hp
  exact ⟨hle, hend, hy.derives hp⟩

/-- Rows of leaves; a leaf with a row after it is tried before a leaf alone. -/
def rows : RuleTable :=
  ⟨[("row", [[.literal "x", .symbol "row"], [.literal "x"]])]⟩

/-- The compiled rows. -/
def rowsGraph : Graph :=
  ⟨#[.composite "row" [2, 3], .literal "x", .sequence [1, 0], .sequence [1]], [("row", 0)]⟩

def leaf : Token :=
  ⟨"LEAF", "x", none, ⟨0, 1⟩⟩

/-- The second leaf is beyond the limit, so the row before it is given up. -/
theorem resolveWithin_derives_rows : compile rows ⟨[]⟩ = .ok rowsGraph ∧
    (rowsGraph.resolveWithin ⟨#[leaf, leaf], .standard⟩ 1 0 0 .empty).1 = .ok (.token leaf, 1) ∧
    0 ≤ 1 ∧ 1 ≤ 2 ∧ rowsGraph.Derives 0 [leaf] := by
  have matched : (rowsGraph.resolveWithin ⟨#[leaf, leaf], .standard⟩ 1 0 0 .empty).1 =
      .ok (.token leaf, 1) := rfl
  exact ⟨rfl, matched, resolveWithin_derives rowsGraph _ 1 0 (Nat.zero_le _) matched⟩

end NodeScript.Graph
