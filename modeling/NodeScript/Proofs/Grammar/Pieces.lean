import NodeScript.Proofs.Grammar.Successes
import NodeScript.Proofs.Tree.Folding

/-!
# What matching has taken, piece by piece

The tokens that a node takes stand in pieces as the rules of the grammar say, and the tree of a
success is what the builders make of these pieces, from the inside out (`Yields.exists_piece`). A
tree may have lost tokens on the way; its piece has them all.
-/

namespace NodeScript

/-- The tokens that were taken, in the pieces of the rules that took them. -/
inductive Piece where
  | token (t : Token)
  | list (items : List Piece)
  | rule (name : String) (body : Piece)

namespace Piece

mutual

/-- The tokens of a piece, from left to right. -/
def tokens : Piece → List Token
  | .token t => [t]
  | .list items => tokensList items
  | .rule _ body => body.tokens

def tokensList : List Piece → List Token
  | [] => []
  | p :: rest => p.tokens ++ tokensList rest

end

mutual

/-- What builders make of a piece. -/
def tree (builders : BuilderTable) : Piece → Except BuildError Tree
  | .token t => .ok (.token t)
  | .list items => (treeList builders items).map fun ts => (Tree.list ts).flatten
  | .rule name body => do
    let t ← body.tree builders
    builders.build name t

def treeList (builders : BuilderTable) : List Piece → Except BuildError (List Tree)
  | [] => .ok []
  | p :: rest => do
    let t ← p.tree builders
    let ts ← treeList builders rest
    .ok (t :: ts)

end

/-- The piece is a part of another, or is the other. -/
inductive IsPart (part : Piece) : Piece → Prop
  | self : IsPart part part
  | item {item : Piece} {items : List Piece} : item ∈ items → IsPart part item →
    IsPart part (.list items)
  | body {name : String} {body : Piece} : IsPart part body → IsPart part (.rule name body)

variable {builders : BuilderTable} {name : String} {body p : Piece} {items ps : List Piece}
  {t : Tree} {ts : List Tree}

theorem tree_list_eq_ok : (list items).tree builders = .ok t ↔
    ∃ ts, treeList builders items = .ok ts ∧ t = (Tree.list ts).flatten := by
  rw [tree]
  cases treeList builders items <;> simp [Except.map, eq_comm]

theorem tree_rule_eq_ok : (rule name body).tree builders = .ok t ↔
    ∃ inner, body.tree builders = .ok inner ∧ builders.build name inner = .ok t := by
  rw [tree, bind_eq_ok_iff]

theorem treeList_cons_eq_ok : treeList builders (p :: ps) = .ok ts ↔
    ∃ t rest, p.tree builders = .ok t ∧ treeList builders ps = .ok rest ∧ t :: rest = ts := by
  simp only [treeList, bind_eq_ok_iff, Except.ok.injEq, exists_and_left]

theorem IsPart.trans {p q r : Piece} (h : IsPart p q) (h' : IsPart q r) : IsPart p r := by
  induction h' with
  | self => exact h
  | item hi _ ih => exact .item hi ih
  | body _ ih => exact .body ih

end Piece

namespace Graph

mutual

/-- The piece is one of the node's. -/
inductive Takes (g : Graph) : Nat → Piece → Prop
  | rule {id alternative : Nat} {name : String} {alternatives : List Nat} {body : Piece} :
    g.nodes[id]? = some (.composite name alternatives) → alternative ∈ alternatives →
    Takes g alternative body → Takes g id (.rule name body)
  | sequence {id : Nat} {items : List Nat} {ps : List Piece} :
    g.nodes[id]? = some (.sequence items) → TakesAll g items ps → Takes g id (.list ps)
  | left {id i j : Nat} {p : Piece} :
    g.nodes[id]? = some (.alternation i j) → Takes g i p → Takes g id p
  | right {id i j : Nat} {p : Piece} :
    g.nodes[id]? = some (.alternation i j) → Takes g j p → Takes g id p
  | repetition {id item : Nat} {ps : List Piece} (further : Nat) :
    g.nodes[id]? = some (.repetition item) → TakesAll g (List.replicate (further + 1) item) ps →
    Takes g id (.list ps)
  | literal {id : Nat} {text : String} {t : Token} :
    g.nodes[id]? = some (.literal text) → t.text = text → Takes g id (.token t)
  | terminal {id : Nat} {name : String} {row : TokenRow} {t : Token} :
    g.nodes[id]? = some (.terminal name (some row)) → row.accepts t.text → Takes g id (.token t)

/-- The pieces are those of the nodes, one for each. -/
inductive TakesAll (g : Graph) : List Nat → List Piece → Prop
  | nil : TakesAll g [] []
  | cons {id : Nat} {ids : List Nat} {p : Piece} {ps : List Piece} :
    Takes g id p → TakesAll g ids ps → TakesAll g (id :: ids) (p :: ps)

end

variable {g : Graph} {input : Input}

mutual

/-- The tree of a success is what the builders make of a piece of all the tokens that were taken. -/
theorem Yields.exists_piece {id position next : Nat} {t : Tree}
    (h : Yields g input id position t next) (hp : position ≤ input.tokens.size) :
    ∃ p, g.Takes id p ∧ p.tokens = input.between position next ∧
      p.tree input.builders = .ok t := by
  match h with
  | .rule hn ha h hb =>
      obtain ⟨p, hp, htokens, htree⟩ := h.exists_piece hp
      exact ⟨.rule _ p, .rule hn ha hp, htokens, Piece.tree_rule_eq_ok.2 ⟨_, htree, hb⟩⟩
  | .sequence hn h =>
      obtain ⟨ps, hps, htokens, htree⟩ := h.exists_pieces hp
      exact ⟨.list ps, .sequence hn hps, htokens, Piece.tree_list_eq_ok.2 ⟨_, htree, rfl⟩⟩
  | .left hn h =>
      obtain ⟨p, hp, hmade⟩ := h.exists_piece hp
      exact ⟨p, .left hn hp, hmade⟩
  | .right hn h =>
      obtain ⟨p, hp, hmade⟩ := h.exists_piece hp
      exact ⟨p, .right hn hp, hmade⟩
  | .repetition further hn h =>
      obtain ⟨ps, hps, htokens, htree⟩ := h.exists_pieces hp
      exact ⟨.list ps, .repetition further hn hps, htokens,
        Piece.tree_list_eq_ok.2 ⟨_, htree, rfl⟩⟩
  | .literal hn ht htext => exact ⟨.token _, .literal hn htext, (Input.between_one ht).symm, rfl⟩
  | .terminal hn ht hrow => exact ⟨.token _, .terminal hn hrow, (Input.between_one ht).symm, rfl⟩

theorem YieldsAll.exists_pieces {ids : List Nat} {position next : Nat} {ts : List Tree}
    (h : YieldsAll g input ids position ts next) (hp : position ≤ input.tokens.size) :
    ∃ ps, g.TakesAll ids ps ∧ Piece.tokensList ps = input.between position next ∧
      Piece.treeList input.builders ps = .ok ts := by
  match h with
  | .nil => exact ⟨[], .nil, (Input.between_self position).symm, rfl⟩
  | .cons h hs =>
      obtain ⟨hle, hmid⟩ := h.bounds hp
      obtain ⟨p, hp, htokens, htree⟩ := h.exists_piece hp
      obtain ⟨ps, hps, htokens', htrees⟩ := hs.exists_pieces hmid
      refine ⟨p :: ps, .cons hp hps, ?_, Piece.treeList_cons_eq_ok.2 ⟨_, _, htree, htrees, rfl⟩⟩
      rw [Piece.tokensList, htokens, htokens', Input.between_append hle (hs.bounds hmid).1]

end

end Graph

/-! ## What pieces keep -/

namespace Piece

open Builder (Folds Loses leaves)
open NodeScript.Tree (IsItem)

mutual

/-- The tokens of a piece that are left in its tree. -/
def kept : Piece → List Token
  | .token t => [t]
  | .list items => keptList items
  | .rule name body => leaves name body.kept

def keptList : List Piece → List Token
  | [] => []
  | p :: rest => p.kept ++ keptList rest

end

mutual

/-- No rule in the piece loses tokens. -/
def IsWhole : Piece → Prop
  | .token _ => True
  | .list items => AreWhole items
  | .rule name body => body.IsWhole ∧ ¬Loses name body.tokens

def AreWhole : List Piece → Prop
  | [] => True
  | p :: rest => p.IsWhole ∧ AreWhole rest

end

mutual

theorem kept_sublist (p : Piece) : p.kept.Sublist p.tokens := by
  match p with
  | .token t => exact .refl _
  | .list items => exact keptList_sublist items
  | .rule name body => exact (Builder.leaves_sublist name _).trans body.kept_sublist

theorem keptList_sublist (ps : List Piece) : (keptList ps).Sublist (tokensList ps) := by
  match ps with
  | [] => exact .refl _
  | p :: rest => exact p.kept_sublist.append (keptList_sublist rest)

end

theorem append_eq_iff {α : Type} {as bs cs ds : List α} (h : as.Sublist cs) (h' : bs.Sublist ds) :
    as ++ bs = cs ++ ds ↔ as = cs ∧ bs = ds := by
  constructor
  · intro he
    have := congrArg List.length he
    rw [List.length_append, List.length_append] at this
    have hle := h.length_le
    have hle' := h'.length_le
    exact ⟨h.eq_of_length (by omega), h'.eq_of_length (by omega)⟩
  · rintro ⟨rfl, rfl⟩
    rfl

mutual

/-- All tokens are left exactly where no rule loses any. -/
theorem kept_eq_tokens_iff (p : Piece) : p.kept = p.tokens ↔ p.IsWhole := by
  match p with
  | .token t => exact iff_of_true rfl trivial
  | .list items => exact keptList_eq_tokensList_iff items
  | .rule name body =>
      rw [kept, tokens, IsWhole, ← kept_eq_tokens_iff body, ← Builder.leaves_eq_iff]
      constructor
      · intro h
        have same := body.kept_sublist.antisymm (h ▸ Builder.leaves_sublist name body.kept)
        rw [same] at h
        exact ⟨same, h⟩
      · rintro ⟨same, h⟩
        rw [same, h]

theorem keptList_eq_tokensList_iff (ps : List Piece) :
    keptList ps = tokensList ps ↔ AreWhole ps := by
  match ps with
  | [] => exact iff_of_true rfl trivial
  | p :: rest =>
      rw [keptList, tokensList, AreWhole, append_eq_iff p.kept_sublist (keptList_sublist rest),
        kept_eq_tokens_iff p, keptList_eq_tokensList_iff rest]

end

mutual

/-- The tree that the builders of scripts make of a piece holds the tokens that are kept. -/
theorem tokens_of_tree {t : Tree} (p : Piece) (h : p.tree .standard = .ok t) :
    t.tokens = p.kept := by
  match p with
  | .token _ =>
      obtain rfl := Except.ok.inj h
      rfl
  | .list items =>
      obtain ⟨ts, hts, rfl⟩ := tree_list_eq_ok.1 h
      rw [Tree.tokens_flatten]
      exact tokensList_of_treeList items hts
  | .rule name body =>
      obtain ⟨inner, hi, hb⟩ := tree_rule_eq_ok.1 h
      rw [(Builder.folds_of_build hb).tokens, tokens_of_tree body hi]
      rfl

theorem tokensList_of_treeList {ts : List Tree} (ps : List Piece)
    (h : treeList .standard ps = .ok ts) : Tree.tokensList ts = keptList ps := by
  match ps with
  | [] =>
      obtain rfl := Except.ok.inj h
      rfl
  | p :: rest =>
      obtain ⟨t, us, ht, hus, rfl⟩ := treeList_cons_eq_ok.1 h
      rw [Tree.tokensList, keptList, tokens_of_tree p ht, tokensList_of_treeList rest hus]

end

/-! ## Where folded trees come from -/

/-- The tree is what a builder of scripts has made of a part of the piece. -/
def IsFoldIn (item : Tree) (p : Piece) : Prop :=
  ∃ name body inner, IsPart (.rule name body) p ∧ name ∈ BuilderTable.standard.keys ∧
    body.tree .standard = .ok inner ∧ BuilderTable.standard.build name inner = .ok item

theorem IsFoldIn.of_isPart {item : Tree} {p q : Piece} (h : IsFoldIn item p) (hp : IsPart p q) :
    IsFoldIn item q := by
  obtain ⟨name, body, inner, hpart, hfold⟩ := h
  exact ⟨name, body, inner, hpart.trans hp, hfold⟩

mutual

/-- What stands in the tree of a piece is a list, a token, or has been folded in the piece. -/
theorem cases_of_isItem {t item : Tree} (p : Piece) (h : p.tree .standard = .ok t)
    (hi : IsItem item t) :
    (∃ items, item = .list items) ∨ (∃ t, item = .token t) ∨ IsFoldIn item p := by
  match p with
  | .token a =>
      obtain rfl := Except.ok.inj h
      cases hi
      exact .inr (.inl ⟨a, rfl⟩)
  | .list items =>
      obtain ⟨ts, hts, rfl⟩ := tree_list_eq_ok.1 h
      cases hi.of_flatten with
      | self => exact .inl ⟨ts, rfl⟩
      | list ht hi =>
          obtain ⟨p, hp, hcases⟩ := cases_of_isItem_list items hts ht hi
          exact hcases.imp_right (.imp_right (·.of_isPart (.item hp .self)))
  | .rule name body =>
      obtain ⟨inner, hinner, hb⟩ := tree_rule_eq_ok.1 h
      have folded (ht : item = t) (hn : name ∈ BuilderTable.standard.keys) :
          IsFoldIn item (.rule name body) :=
        ⟨name, body, inner, .self, hn, hinner, ht ▸ hb⟩
      cases Builder.folds_of_build hb with
      | none t hr =>
          exact (cases_of_isItem body hinner hi).imp_right
            (.imp_right (·.of_isPart (.body .self)))
      | node _ | knob _ | channels | curve _ =>
          cases hi
          exact .inr (.inr (folded rfl (by decide)))

theorem cases_of_isItem_list {ts : List Tree} {t item : Tree} (ps : List Piece)
    (h : treeList .standard ps = .ok ts) (ht : t ∈ ts) (hi : IsItem item t) :
    ∃ p ∈ ps, (∃ items, item = .list items) ∨ (∃ t, item = .token t) ∨ IsFoldIn item p := by
  match ps with
  | [] =>
      obtain rfl := Except.ok.inj h
      cases ht
  | p :: rest =>
      obtain ⟨first, others, hf, ho, rfl⟩ := treeList_cons_eq_ok.1 h
      rcases List.mem_cons.1 ht with rfl | ht
      · exact ⟨p, List.mem_cons_self, cases_of_isItem p hf hi⟩
      · obtain ⟨q, hq, hcases⟩ := cases_of_isItem_list rest ho ht hi
        exact ⟨q, List.mem_cons_of_mem p hq, hcases⟩

end

variable {p : Piece} {t : Tree}

/-- The node was folded by a rule of nodes in the piece. -/
theorem exists_node {n : Node} (h : p.tree .standard = .ok t) (hn : n ∈ t.nodes) :
    ∃ body inner, IsPart (.rule "node" body) p ∧ body.tree .standard = .ok inner ∧
      Builder.buildNode inner = .ok (.node n) := by
  rcases cases_of_isItem p h (Tree.isItem_of_mem_nodes t hn) with
    ⟨_, ⟨⟩⟩ | ⟨_, ⟨⟩⟩ | ⟨name, body, inner, hp, hname, hinner, hb⟩
  cases Builder.folds_of_build hb with
  | node hb => exact ⟨body, inner, hp, hinner, hb⟩
  | none _ hr => exact absurd hname hr

/-- A knob in the tree was folded by a rule of knobs in the piece. -/
theorem exists_knob {a : Attribute} (h : p.tree .standard = .ok t) (ha : IsItem (.attribute a) t) :
    ∃ body, IsPart (.rule "knob" body) p ∧
      (rule "knob" body).tree .standard = .ok (.attribute a) := by
  rcases cases_of_isItem p h ha with
    ⟨_, ⟨⟩⟩ | ⟨_, ⟨⟩⟩ | ⟨name, body, inner, hp, hname, hinner, hb⟩
  cases Builder.folds_of_build hb with
  | knob _ => exact ⟨body, hp, tree_rule_eq_ok.2 ⟨inner, hinner, hb⟩⟩
  | none _ hr => exact absurd hname hr

/-- The knobs of a node were folded in the piece of the node. -/
theorem exists_knob_of_node {n : Node} {a : Attribute} (h : p.tree .standard = .ok t)
    (hn : n ∈ t.nodes) (ha : a ∈ n.attributes) : ∃ body, IsPart (.rule "knob" body) p ∧
      (rule "knob" body).tree .standard = .ok (.attribute a) := by
  obtain ⟨body, inner, hp, hinner, hb⟩ := exists_node h hn
  obtain ⟨_, ⟨⟩, has⟩ := Builder.isItem_of_buildNode hb
  obtain ⟨knob, hk, htree⟩ := exists_knob hinner (has a ha)
  exact ⟨knob, (hk.trans (.body .self)).trans hp, htree⟩

/-! ## Knobs -/

/-- The trees of scripts are no lists of one item. -/
theorem flatten_of_tree {t : Tree} (p : Piece) (h : p.tree .standard = .ok t) : t.flatten = t := by
  match p with
  | .token _ =>
      obtain rfl := Except.ok.inj h
      rfl
  | .list items =>
      obtain ⟨ts, -, rfl⟩ := tree_list_eq_ok.1 h
      exact Tree.flatten_flatten _
  | .rule name body =>
      obtain ⟨inner, hinner, hb⟩ := tree_rule_eq_ok.1 h
      cases Builder.folds_of_build hb with
      | none t hr => exact flatten_of_tree body hinner
      | node _ | knob _ | channels | curve _ => rfl

/-- A list of pieces makes the tree of its only piece, or as many trees as it has pieces. -/
theorem cases_of_tree_list {items : List Piece} {t : Tree}
    (h : (list items).tree .standard = .ok t) : (∃ p, items = [p] ∧ p.tree .standard = .ok t) ∨
      ∃ ts, treeList .standard items = .ok ts ∧ t = .list ts := by
  obtain ⟨ts, hts, rfl⟩ := tree_list_eq_ok.1 h
  match items with
  | [] => exact .inr ⟨ts, hts, by obtain rfl := Except.ok.inj hts; rfl⟩
  | [p] =>
      obtain ⟨t, _, ht, hnil, rfl⟩ := treeList_cons_eq_ok.1 hts
      obtain rfl := Except.ok.inj hnil
      exact .inl ⟨p, rfl, ht.trans (congrArg _ (flatten_of_tree p ht).symm)⟩
  | p :: q :: rest =>
      obtain ⟨t, _, -, hts', rfl⟩ := treeList_cons_eq_ok.1 hts
      obtain ⟨u, us, -, -, rfl⟩ := treeList_cons_eq_ok.1 hts'
      exact .inr ⟨_, hts, rfl⟩

/-- The piece is one of a name and a value, with nothing but rules and lists around the two. -/
theorem exists_pair {name value : Tree} (p : Piece)
    (h : p.tree .standard = .ok (.list [name, value])) :
    ∃ n v, IsPart (.list [n, v]) p ∧ p.tokens = n.tokens ++ v.tokens ∧
      n.tree .standard = .ok name ∧ v.tree .standard = .ok value := by
  match p with
  | .token _ => cases h
  | .list [] => cases h
  | .list [p] =>
      rcases cases_of_tree_list h with ⟨_, ⟨⟩, h⟩ | ⟨_, hts, ⟨⟩⟩
      · obtain ⟨n, v, hp, htokens, hn, hv⟩ := exists_pair p h
        exact ⟨n, v, .item (List.mem_singleton_self p) hp, by simpa [tokens, tokensList], hn, hv⟩
      · obtain ⟨_, _, _, ⟨⟩, ⟨⟩⟩ := treeList_cons_eq_ok.1 hts
  | .list (n :: v :: rest) =>
      rcases cases_of_tree_list h with ⟨_, ⟨⟩, h⟩ | ⟨_, hts, ⟨⟩⟩
      obtain ⟨_, _, hn, hts, ⟨⟩⟩ := treeList_cons_eq_ok.1 hts
      obtain ⟨_, _, hv, hts, ⟨⟩⟩ := treeList_cons_eq_ok.1 hts
      cases rest with
      | nil => exact ⟨n, v, .self, by simp [tokens, tokensList], hn, hv⟩
      | cons p rest => obtain ⟨_, _, _, _, ⟨⟩⟩ := treeList_cons_eq_ok.1 hts
  | .rule _ body =>
      obtain ⟨inner, hinner, hb⟩ := tree_rule_eq_ok.1 h
      cases Builder.folds_of_build hb with
      | none t hr =>
          obtain ⟨n, v, hp, hmade⟩ := exists_pair body hinner
          exact ⟨n, v, .body hp, hmade⟩

theorem tokens_of_tree_token {a : Token} (p : Piece) (h : p.tree .standard = .ok (.token a)) :
    p.tokens = [a] := by
  match p with
  | .token _ =>
      cases h
      rfl
  | .list [] => cases h
  | .list [p] =>
      rcases cases_of_tree_list h with ⟨_, ⟨⟩, h⟩ | ⟨_, -, ⟨⟩⟩
      simpa [tokens, tokensList] using tokens_of_tree_token p h
  | .list (_ :: _ :: _) => obtain ⟨_, ⟨⟩, -⟩ | ⟨_, -, ⟨⟩⟩ := cases_of_tree_list h
  | .rule _ body =>
      obtain ⟨inner, hinner, hb⟩ := tree_rule_eq_ok.1 h
      cases Builder.folds_of_build hb with
      | none t hr => exact tokens_of_tree_token body hinner

theorem tokensList_eq_flatMap (ps : List Piece) : tokensList ps = ps.flatMap tokens := by
  induction ps with
  | nil => rfl
  | cons p ps ih => rw [tokensList, ih, List.flatMap_cons]

theorem IsPart.tokens_subset {q : Piece} (h : IsPart p q) : p.tokens ⊆ q.tokens := by
  induction h with
  | self => exact List.Subset.refl _
  | @item item items hi _ ih =>
      intro t ht
      rw [tokens, tokensList_eq_flatMap]
      exact List.mem_flatMap.2 ⟨item, hi, ih ht⟩
  | body _ ih => exact ih

/-- The piece is a knob in another. -/
structure IsKnobIn (body piece : Piece) (a : Attribute) : Prop where
  isPart : IsPart (.rule "knob" body) piece
  tree : (rule "knob" body).tree .standard = .ok (.attribute a)

/-- The piece has a name and a value, and no other tokens. -/
structure Pairs (body : Piece) (name : Token) (value : Piece) : Prop where
  isPart : ∃ n, n.tokens = [name] ∧ IsPart (.list [n, value]) body
  tokens : body.tokens = name :: value.tokens

end Piece

end NodeScript
