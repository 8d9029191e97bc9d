import NodeScript.Proofs.Grammar.Consumption
import NodeScript.Proofs.Tree.Folding

/-!
# Flat trees

Lists are unwrapped only where a sequence or a repetition has just made one. This is enough: at no
depth of the tree of a node is there a list of one item, also through rules that lead back to
themselves, sequences of nothing, repetitions that stall and what builders fold.
-/

namespace NodeScript

namespace Tree

/-- No list in the tree, at any depth, has exactly one item. -/
def IsFlat (t : Tree) : Prop :=
  ∀ items, IsItem (.list items) t → items.length ≠ 1

variable {t : Tree} {ts : List Tree}

theorem IsItem.eq_of_not_list {item : Tree} (h : IsItem item t) (ht : ∀ ts, t ≠ .list ts) :
    item = t := by
  cases h with
  | self => rfl
  | list _ _ => exact absurd rfl (ht _)

/-- A tree that is no list has no lists in it. -/
theorem isFlat_of_not_list (ht : ∀ ts, t ≠ .list ts) : t.IsFlat :=
  fun items h => absurd (h.eq_of_not_list ht).symm (ht items)

theorem isFlat_token (a : Token) : (Tree.token a).IsFlat :=
  isFlat_of_not_list (by simp)

theorem isFlat_list_iff : (Tree.list ts).IsFlat ↔ ts.length ≠ 1 ∧ ∀ t ∈ ts, t.IsFlat := by
  constructor
  · exact fun h => ⟨h ts .self, fun t ht items hi => h items (.list ht hi)⟩
  · rintro ⟨hl, hts⟩ items (_ | ⟨ht, hi⟩)
    · exact hl
    · exact hts _ ht items hi

theorem IsFlat.flatten_eq (h : t.IsFlat) : t.flatten = t := by
  fun_cases flatten t with
  | case1 item => exact absurd rfl (h [item] .self)
  | case2 t _ => rfl

/-- Unwrapping a list of flat trees gives a flat tree. -/
theorem isFlat_flatten (h : ∀ t ∈ ts, t.IsFlat) : (Tree.list ts).flatten.IsFlat := by
  by_cases hl : ts.length = 1
  · obtain ⟨t, rfl⟩ := List.length_eq_one_iff.1 hl
    have ht := h t (List.mem_singleton_self t)
    rwa [flatten, ht.flatten_eq]
  · rw [flatten.eq_2 _ fun t he => hl (by rw [Tree.list.inj he]; rfl)]
    exact isFlat_list_iff.2 ⟨hl, h⟩

end Tree

/-- Of flat trees the builders make flat trees. -/
def BuilderTable.KeepsFlat (builders : BuilderTable) : Prop :=
  ∀ ⦃rule t built⦄, builders.build rule t = .ok built → t.IsFlat → built.IsFlat

namespace BuilderTable

theorem keepsFlat_empty : KeepsFlat .empty := by
  intro rule t built hb ht
  rw [build_empty, Except.ok.injEq] at hb
  exact hb ▸ ht

/-- What is folded is no list. -/
theorem keepsFlat_standard : KeepsFlat .standard := by
  intro rule t built hb ht
  cases Builder.folds_of_build hb with
  | node _ => exact Tree.isFlat_of_not_list (by simp)
  | knob _ => exact Tree.isFlat_of_not_list (by simp)
  | channels _ => exact Tree.isFlat_of_not_list (by simp)
  | curve _ => exact Tree.isFlat_of_not_list (by simp)
  | none _ _ => exact ht

end BuilderTable

namespace Graph

variable {g : Graph} {input : Input}

mutual

theorem Yields.isFlat {id position next : Nat} {t : Tree} (h : Yields g input id position t next)
    (hb : input.builders.KeepsFlat) : t.IsFlat := by
  match h with
  | .rule _ _ h hbuilt => exact hb hbuilt (h.isFlat hb)
  | .sequence _ h => exact Tree.isFlat_flatten (h.isFlat hb)
  | .left _ h => exact h.isFlat hb
  | .right _ h => exact h.isFlat hb
  | .repetition _ _ h => exact Tree.isFlat_flatten (h.isFlat hb)
  | .literal _ _ _ => exact Tree.isFlat_token _
  | .terminal _ _ _ => exact Tree.isFlat_token _

theorem YieldsAll.isFlat {ids : List Nat} {position next : Nat} {ts : List Tree}
    (h : YieldsAll g input ids position ts next) (hb : input.builders.KeepsFlat) :
    ∀ t ∈ ts, t.IsFlat := by
  match h with
  | .nil => exact List.forall_mem_nil _
  | .cons h hs => exact List.forall_mem_cons.2 ⟨h.isFlat hb, hs.isFlat hb⟩

end

/-- When matching a node succeeds, without builders or with those of scripts, no list in its tree
has exactly one item, at any depth, and so there is nothing to unwrap. -/
theorem resolve_isFlat (g : Graph) {builders : BuilderTable}
    (hb : builders = .empty ∨ builders = .standard) (tokens : Array Token) (id : Nat)
    {position next : Nat} {d : Diagnostics} {t : Tree}
    (h : (g.resolve ⟨tokens, builders⟩ id position d).1 = .ok (t, next)) :
    (∀ items, Tree.IsItem (.list items) t → items.length ≠ 1) ∧ t.flatten = t := by
  have keeps : builders.KeepsFlat := by
    rcases hb with rfl | rfl
    · exact BuilderTable.keepsFlat_empty
    · exact BuilderTable.keepsFlat_standard
  have flat : t.IsFlat :=
    (resolveWithin_yields g ⟨tokens, builders⟩ nestingLimit id h).isFlat keeps
  exact ⟨flat, flat.flatten_eq⟩

/-- Branches: a leaf with branches on it, or nothing. -/
def branches : RuleTable :=
  ⟨[("branch", [[.literal "x", .symbol "branch", .oneOrMore], []])]⟩

/-- The compiled branches. -/
def branchesGraph : Graph :=
  ⟨#[.composite "branch" [3, 4], .literal "x", .repetition 0, .sequence [1, 2], .sequence []],
    [("branch", 0)]⟩

/-- Each repetition stalls at a branch of nothing. -/
theorem resolve_isFlat_branches :
    let leaves : Tree := .list [.token leaf, .list []]
    let t : Tree := .list [.token leaf, .list [leaves, .list []]]
    compile branches ⟨[]⟩ = .ok branchesGraph ∧
    (branchesGraph.resolve ⟨#[leaf, leaf], .standard⟩ 0 0 .empty).1 = .ok (t, 2) ∧
    (∀ items, Tree.IsItem (.list items) t → items.length ≠ 1) ∧ t.flatten = t := by
  intro leaves t
  have matched : (branchesGraph.resolve ⟨#[leaf, leaf], .standard⟩ 0 0 .empty).1 = .ok (t, 2) := rfl
  exact ⟨rfl, matched, resolve_isFlat branchesGraph (.inr rfl) _ 0 matched⟩

end Graph

end NodeScript
