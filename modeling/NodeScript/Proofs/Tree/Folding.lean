import Mathlib.Data.List.Basic
import NodeScript.Proofs.Results
import NodeScript.Tree.Builder

/-!
# What builders fold

The builders of scripts fold the trees of knobs, nodes, values of channels and curves. What is
folded into a tree stands in it with lists around it, and of its tokens only some are left
(`leaves`).
-/

namespace NodeScript

/-! ## Trees within trees -/

namespace Tree

/-- The tree is another or stands in it, with nothing but lists around it. -/
inductive IsItem (item : Tree) : Tree → Prop
  | self : IsItem item item
  | list {t : Tree} {items : List Tree} : t ∈ items → IsItem item t → IsItem item (.list items)

theorem IsItem.of_flatten {item t : Tree} (h : IsItem item t.flatten) : IsItem item t := by
  fun_induction flatten t with
  | case1 t ih => exact .list (List.mem_singleton_self t) (ih h)
  | case2 t _ => exact h

theorem flatten_flatten (t : Tree) : t.flatten.flatten = t.flatten := by
  fun_induction flatten t with
  | case1 t ih => exact ih
  | case2 t h =>
      unfold flatten
      split
      · exact absurd rfl (h _)
      · rfl

mutual

theorem isItem_of_mem_nodes {n : Node} (t : Tree) (h : n ∈ t.nodes) : IsItem (.node n) t := by
  match t with
  | .node m =>
      obtain rfl := List.mem_singleton.1 h
      exact .self
  | .list items =>
      obtain ⟨t, ht, hi⟩ := isItem_of_mem_nodesList items h
      exact .list ht hi

theorem isItem_of_mem_nodesList {n : Node} (ts : List Tree) (h : n ∈ nodesList ts) :
    ∃ t ∈ ts, IsItem (.node n) t := by
  match ts with
  | t :: rest =>
      rcases List.mem_append.1 h with h | h
      · exact ⟨t, List.mem_cons_self, isItem_of_mem_nodes t h⟩
      · obtain ⟨u, hu, hi⟩ := isItem_of_mem_nodesList rest h
        exact ⟨u, List.mem_cons_of_mem t hu, hi⟩

end

end Tree

namespace Builder

open NodeScript.Tree (IsItem)

variable {a : Attribute} {as : List Attribute} {t : Tree} {ts : List Tree}

theorem attributesOfList_cons_eq_ok : attributesOfList (t :: ts) = .ok as ↔
    ∃ first others, attributesOf t = .ok first ∧ attributesOfList ts = .ok others ∧
      first ++ others = as := by
  simp only [attributesOfList, bind_eq_ok_iff, Except.ok.injEq, exists_and_left]

mutual

theorem isItem_of_attributesOf {as : List Attribute} (t : Tree) (h : attributesOf t = .ok as)
    (ha : a ∈ as) : IsItem (.attribute a) t := by
  match t with
  | .attribute b =>
      cases h
      obtain rfl := List.mem_singleton.1 ha
      exact .self
  | .list items =>
      obtain ⟨t, ht, hi⟩ := isItem_of_attributesOfList items h ha
      exact .list ht hi

theorem isItem_of_attributesOfList {as : List Attribute} (ts : List Tree)
    (h : attributesOfList ts = .ok as) (ha : a ∈ as) : ∃ t ∈ ts, IsItem (.attribute a) t := by
  match ts with
  | [] =>
      cases h
      cases ha
  | t :: rest =>
      obtain ⟨first, others, hf, ho, rfl⟩ := attributesOfList_cons_eq_ok.1 h
      rcases List.mem_append.1 ha with ha | ha
      · exact ⟨t, List.mem_cons_self, isItem_of_attributesOf t hf ha⟩
      · obtain ⟨u, hu, hi⟩ := isItem_of_attributesOfList rest ho ha
        exact ⟨u, List.mem_cons_of_mem t hu, hi⟩

end

theorem knobs_eq_ok {after : List Tree} (h : (do
    let first ← attributesOf t
    let (others, after) ← knobsUntilClose ts
    .ok (first ++ others, after) : Except BuildError _) = .ok (as, after)) :
    ∃ first others, attributesOf t = .ok first ∧ knobsUntilClose ts = .ok (others, after) ∧
      as = first ++ others := by
  obtain ⟨first, hf, h⟩ := bind_eq_ok_iff.1 h
  obtain ⟨⟨others, after'⟩, ho, h⟩ := bind_eq_ok_iff.1 h
  obtain ⟨rfl, rfl⟩ := Prod.mk.inj (Except.ok.inj h)
  exact ⟨first, others, hf, ho, rfl⟩

theorem knobsUntilClose_cons {after : List Tree}
    (h : knobsUntilClose (t :: ts) = .ok (as, after)) : as = [] ∨
      ∃ first others, attributesOf t = .ok first ∧ knobsUntilClose ts = .ok (others, after) ∧
        as = first ++ others := by
  unfold knobsUntilClose at h
  split at h
  · split at h
    · exact .inl (Prod.mk.inj (Except.ok.inj h)).1.symm
    · exact .inr (knobs_eq_ok h)
  · exact .inr (knobs_eq_ok h)

theorem isItem_of_knobsUntilClose {after : List Tree} (h : knobsUntilClose ts = .ok (as, after))
    (ha : a ∈ as) : ∃ t ∈ ts, IsItem (.attribute a) t := by
  induction ts generalizing as after with
  | nil => cases h
  | cons t ts ih =>
      rcases knobsUntilClose_cons h with rfl | ⟨first, others, hf, ho, rfl⟩
      · cases ha
      · rcases List.mem_append.1 ha with ha | ha
        · exact ⟨t, List.mem_cons_self, isItem_of_attributesOf t hf ha⟩
        · obtain ⟨u, hu, hi⟩ := ih ho ha
          exact ⟨u, List.mem_cons_of_mem t hu, hi⟩

theorem isItem_of_mem_items {item u : Tree} (hu : u ∈ t.items) (h : IsItem item u) :
    IsItem item t := by
  match t with
  | .list items => exact .list hu h
  | .token _ | .channels _ | .curve _ | .attribute _ | .node _ =>
      obtain rfl := List.mem_singleton.1 hu
      exact h

theorem isItem_of_buildNode {u : Tree} (h : buildNode t = .ok u) :
    ∃ n, u = .node n ∧ ∀ a ∈ n.attributes, IsItem (.attribute a) t := by
  unfold buildNode at h
  split at h
  · rename_i className opening rest heq
    split at h
    · obtain ⟨⟨as, after⟩, hk, h⟩ := bind_eq_ok_iff.1 h
      refine ⟨_, (Except.ok.inj h).symm, fun a ha => ?_⟩
      obtain ⟨u, hu, hi⟩ := isItem_of_knobsUntilClose hk ha
      refine isItem_of_mem_items ?_ hi
      rw [heq]
      exact List.mem_cons_of_mem _ (List.mem_cons_of_mem _ hu)
    · cases h
  · cases h
  · cases h

/-! ## What folding leaves -/

/-- The builders of scripts fold the tree of a rule into another; trees of rules that have none stay
as they are. -/
inductive Folds : String → Tree → Tree → Prop
  | node {t : Tree} {n : Node} : buildNode t = .ok (.node n) → Folds "node" t (.node n)
  | knob {t : Tree} {a : Attribute} : buildAttribute t = .ok (.attribute a) →
    Folds "knob" t (.attribute a)
  | channels (t : Tree) : Folds "multi_value" t (.channels (withoutDelimiters t.tokens))
  | curve {t : Tree} {pairs : List (Token × Token)} :
    pairUp? (withoutCurveWord (t.tokens.filter fun t => t.text != "\x7b" && t.text != "\x7d")) =
      some pairs → Folds "animated_value" t (.curve pairs)
  | none {rule : String} (t : Tree) : rule ∉ BuilderTable.standard.keys → Folds rule t t

theorem buildAttribute_eq_ok {t u : Tree} (h : buildAttribute t = .ok u) :
    ∃ name value v, t.items = [.token name, value] ∧ valueOf value = .ok v ∧
      u = .attribute ⟨name.text, v⟩ := by
  unfold buildAttribute at h
  split at h
  · rename_i name value heq
    obtain ⟨v, hv, rfl⟩ := map_eq_ok_iff.1 h
    exact ⟨name, value, v, heq, hv, rfl⟩
  · cases h

theorem folds_of_build {rule : String} {t u : Tree}
    (h : BuilderTable.standard.build rule t = .ok u) : Folds rule t u := by
  by_cases hr : rule ∈ BuilderTable.standard.keys
  · simp only [show BuilderTable.standard.keys =
      ["node", "knob", "multi_value", "animated_value"] by decide, List.mem_cons,
      List.not_mem_nil, or_false] at hr
    rcases hr with rfl | rfl | rfl | rfl
    · obtain ⟨n, rfl, -⟩ := isItem_of_buildNode h
      exact .node h
    · obtain ⟨name, value, v, -, -, rfl⟩ := buildAttribute_eq_ok h
      exact .knob h
    · change buildMultiValue t = .ok u at h
      unfold buildMultiValue at h
      split at h
      · cases h
      · obtain rfl := Except.ok.inj h
        exact .channels t
    · change buildAnimatedValue t = .ok u at h
      simp only [buildAnimatedValue] at h
      split at h
      · cases h
      · cases h
      · rename_i pairs _ hp
        split at h
        · obtain rfl := Except.ok.inj h
          exact .curve hp
        · cases h
  · have stays : BuilderTable.standard.build rule t = .ok t := by
      have none : BuilderTable.standard.get? rule = none :=
        List.lookup_eq_none_iff.2 fun e he => by
          simpa using fun hn : rule = e.1 => hr (hn ▸ List.mem_map_of_mem he)
      rw [BuilderTable.build, none]
    obtain rfl := Except.ok.inj (stays.symm.trans h)
    exact .none t hr

/-- What folding leaves of the tokens of a rule. -/
def leaves (rule : String) (ts : List Token) : List Token :=
  if rule = "node" ∨ rule = "knob" then []
  else if rule = "multi_value" then withoutDelimiters ts
  else if rule = "animated_value" then
    withoutCurveWord (ts.filter fun t => t.text != "\x7b" && t.text != "\x7d")
  else ts

theorem pairUp?_tokens {ts : List Token} {pairs : List (Token × Token)}
    (h : pairUp? ts = some pairs) : (pairs.flatMap fun (frame, value) => [frame, value]) = ts := by
  fun_induction pairUp? ts generalizing pairs with
  | case1 =>
      obtain rfl := Option.some.inj h
      rfl
  | case2 => cases h
  | case3 frame value rest ih =>
      obtain ⟨others, ho, rfl⟩ := Option.map_eq_some_iff.1 h
      rw [List.flatMap_cons, ih ho]
      rfl

theorem Folds.tokens {rule : String} {t u : Tree} (h : Folds rule t u) :
    u.tokens = leaves rule t.tokens := by
  cases h with
  | node h => rfl
  | knob h => rfl
  | channels t => rfl
  | curve h => exact pairUp?_tokens h
  | none t hr =>
      have hr : rule ∉ ["node", "knob", "multi_value", "animated_value"] := hr
      simp only [List.mem_cons, List.not_mem_nil, or_false, not_or] at hr
      simp [leaves, hr]

/-- Folding loses tokens of the rule: knobs and nodes lose all, channels their delimiters, a curve
its braces and its word. -/
def Loses (rule : String) (ts : List Token) : Prop :=
  if rule = "node" ∨ rule = "knob" then ts ≠ []
  else if rule = "multi_value" then ∃ first mid last, ts = first :: (mid ++ [last]) ∧
    areDelimiters first.text last.text
  else if rule = "animated_value" then
    (∃ t ∈ ts, t.text = "\x7b" ∨ t.text = "\x7d") ∨ ts.head?.any (·.text = "curve")
  else False

theorem withoutDelimiters_sublist (ts : List Token) : (withoutDelimiters ts).Sublist ts := by
  unfold withoutDelimiters
  split
  · split
    · exact ((List.dropLast_sublist _).trans (List.sublist_cons_self _ _))
    · exact .refl _
  · exact .refl _

theorem withoutCurveWord_sublist (ts : List Token) : (withoutCurveWord ts).Sublist ts := by
  unfold withoutCurveWord
  split
  · split
    · exact List.sublist_cons_self _ _
    · exact .refl _
  · exact .refl _

theorem leaves_sublist (rule : String) (ts : List Token) : (leaves rule ts).Sublist ts := by
  unfold leaves
  split
  · exact List.nil_sublist ts
  · split
    · exact withoutDelimiters_sublist ts
    · split
      · exact (withoutCurveWord_sublist _).trans List.filter_sublist
      · exact .refl _

theorem withoutDelimiters_eq_iff {ts : List Token} : withoutDelimiters ts = ts ↔
    ¬∃ first mid last, ts = first :: (mid ++ [last]) ∧ areDelimiters first.text last.text := by
  match ts with
  | [] => simp [withoutDelimiters]
  | [t] => simp [withoutDelimiters]
  | first :: second :: rest =>
      have ends : second :: rest =
          (second :: rest).dropLast ++ [(second :: rest).getLast (by simp)] :=
        (List.dropLast_append_getLast _).symm
      have shorter : (second :: rest).dropLast ≠ first :: second :: rest := by
        intro he
        have := congrArg List.length he
        simp only [List.length_dropLast, List.length_cons] at this
        omega
      constructor
      · rintro h ⟨_, mid, last, he, hd⟩
        obtain ⟨rfl, hs⟩ := List.cons.inj he
        have hlast : (second :: rest).getLast (by simp) = last := by
          simp only [hs, List.getLast_concat]
        rw [withoutDelimiters, hlast, if_pos hd] at h
        exact shorter h
      · intro h
        rw [withoutDelimiters, if_neg fun hd => h ⟨_, _, _, congrArg _ ends, hd⟩]

theorem withoutCurveWord_eq_iff {ts : List Token} :
    withoutCurveWord ts = ts ↔ ¬ts.head?.any (·.text = "curve") := by
  cases ts with
  | nil => simp [withoutCurveWord]
  | cons first rest => by_cases h : first.text = "curve" <;> simp [withoutCurveWord, h]

theorem leaves_eq_iff {rule : String} {ts : List Token} : leaves rule ts = ts ↔ ¬Loses rule ts := by
  unfold leaves Loses
  split
  · simp [eq_comm]
  · split
    · exact withoutDelimiters_eq_iff
    · split
      · have braces : (ts.filter fun t => t.text != "\x7b" && t.text != "\x7d") = ts ↔
            ¬∃ t ∈ ts, t.text = "\x7b" ∨ t.text = "\x7d" := by
          simp [List.filter_eq_self]
        rw [not_or, ← braces, ← withoutCurveWord_eq_iff]
        constructor
        · intro h
          have same := List.filter_sublist.antisymm
            (h ▸ withoutCurveWord_sublist (ts.filter fun t => t.text != "\x7b" && t.text != "\x7d"))
          rw [same] at h
          exact ⟨same, h⟩
        · rintro ⟨same, h⟩
          rw [same, h]
      · simp

end Builder

end NodeScript
