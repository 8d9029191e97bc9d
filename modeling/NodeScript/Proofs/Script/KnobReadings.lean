import NodeScript.Proofs.Script.Nesting
import NodeScript.Proofs.Tree.Folding

/-!
# Where the knobs of a script are read

The value of a knob has been read at some place in the script. The rules of scripts put trees
together without making knobs of their own, so each hands on where those in its tree come from.
-/

namespace NodeScript

namespace Tree

/-- The knob stands in the tree, on its own or in a node. -/
def Holds (t : Tree) (a : Attribute) : Prop :=
  IsItem (.attribute a) t ∨ ∃ n, IsItem (.node n) t ∧ a ∈ n.attributes

variable {t : Tree} {trees : List Tree} {a b : Attribute} {n : Node}

theorem Holds.of_flatten (h : t.flatten.Holds a) : t.Holds a :=
  h.imp IsItem.of_flatten fun ⟨n, hn, ha⟩ => ⟨n, hn.of_flatten, ha⟩

theorem Holds.exists_mem (h : (list trees).Holds a) : ∃ t ∈ trees, t.Holds a := by
  obtain ⟨_ | ⟨ht, hi⟩⟩ | ⟨n, _ | ⟨ht, hi⟩, ha⟩ := h
  · exact ⟨_, ht, .inl hi⟩
  · exact ⟨_, ht, .inr ⟨n, hi, ha⟩⟩

theorem not_holds_token (token : Token) : ¬(Tree.token token).Holds a := by
  rintro (h | ⟨n, h, -⟩) <;> cases h

theorem Holds.eq_of_attribute (h : Tree.Holds (.attribute b) a) : a = b := by
  rcases h with h | ⟨n, h, -⟩ <;> cases h
  rfl

theorem Holds.mem_of_node (h : Tree.Holds (.node n) a) : a ∈ n.attributes := by
  rcases h with h | ⟨n, h, ha⟩ <;> cases h
  exact ha

end Tree

namespace Script

/-- The value of the knob is read somewhere in the tokens. -/
def IsReadIn (value : Descent) (ts : List Token) (a : Attribute) : Prop :=
  ∃ mid v rest, mid <:+ ts ∧ value mid = some (v, rest) ∧ Builder.valueOf v = .ok a.value

/-- What is left is the end of the tokens, of which there are at most `limit`, and the knobs in the
tree are read in them. -/
def Traces (value : Descent) (limit : Nat) (f : Descent) : Prop :=
  ∀ ⦃ts t rest⦄, ts.length ≤ limit → f ts = some (t, rest) →
    rest <:+ ts ∧ ∀ a, t.Holds a → IsReadIn value ts a

variable {value f g : Descent} {fs : List Descent} {limit : Nat} {ts mid rest : List Token}
  {trees : List Tree} {a : Attribute}

theorem IsReadIn.of_suffix (h : IsReadIn value mid a) (hs : mid <:+ ts) : IsReadIn value ts a := by
  obtain ⟨at', v, rest, hm, hv⟩ := h
  exact ⟨at', v, rest, hm.trans hs, hv⟩

/-! ## Readings put together -/

theorem traces_one (test : Token → Bool) : Traces value limit (.one test) := by
  intro ts t rest _ h
  obtain ⟨x, rfl, -, rfl⟩ := Descent.one_eq_some.1 h
  exact ⟨List.suffix_cons x rest, fun a ha => absurd ha (Tree.not_holds_token x)⟩

theorem traces_all (h : ∀ f ∈ fs, Traces value limit f) (hl : ts.length ≤ limit)
    (hf : Descent.all fs ts = some (trees, rest)) :
    rest <:+ ts ∧ ∀ t ∈ trees, ∀ a, t.Holds a → IsReadIn value ts a := by
  induction fs generalizing ts trees with
  | nil =>
      obtain ⟨rfl, rfl⟩ := Descent.all_nil_eq_some.1 hf
      exact ⟨List.suffix_refl _, List.forall_mem_nil _⟩
  | cons f fs ih =>
      obtain ⟨first, more⟩ := List.forall_mem_cons.1 h
      obtain ⟨t, mid, trees, hm, hr, rfl⟩ := Descent.all_cons_eq_some.1 hf
      obtain ⟨hmid, ht⟩ := first hl hm
      obtain ⟨hrest, hts⟩ := ih more (Nat.le_trans hmid.length_le hl) hr
      exact ⟨hrest.trans hmid, List.forall_mem_cons.2
        ⟨ht, fun t ht a ha => (hts t ht a ha).of_suffix hmid⟩⟩

theorem traces_sequence (h : ∀ f ∈ fs, Traces value limit f) :
    Traces value limit (.sequence fs) := by
  intro ts t rest hl hf
  obtain ⟨trees, ht, rfl⟩ := Descent.sequence_eq_some.1 hf
  obtain ⟨hrest, hts⟩ := traces_all h hl ht
  refine ⟨hrest, fun a ha => ?_⟩
  obtain ⟨t, ht, ha⟩ := ha.of_flatten.exists_mem
  exact hts t ht a ha

theorem traces_alternation (hf : Traces value limit f) (hg : Traces value limit g) :
    Traces value limit (.alternation f g) := by
  intro ts t rest hl h
  simp only [Descent.alternation] at h
  cases hs : f ts with
  | some taken =>
      rw [hs] at h
      exact hf hl (hs.trans h)
  | none =>
      rw [hs] at h
      exact hg hl h

theorem traces_rounds (h : Traces value limit f) (n : Nat) (hl : ts.length ≤ limit) :
    (Descent.rounds f n ts).2 <:+ ts ∧
      ∀ t ∈ (Descent.rounds f n ts).1, ∀ a, t.Holds a → IsReadIn value ts a := by
  induction n generalizing ts with
  | zero => exact ⟨List.suffix_refl _, List.forall_mem_nil _⟩
  | succ n ih =>
      simp only [Descent.rounds]
      cases hf : f ts with
      | none => exact ⟨List.suffix_refl _, List.forall_mem_nil _⟩
      | some taken =>
          obtain ⟨t, mid⟩ := taken
          obtain ⟨hmid, ht⟩ := h hl hf
          by_cases hs : mid.length = ts.length
          · simpa [hs] using ⟨hmid, ht⟩
          · obtain ⟨hrest, hts⟩ := ih (Nat.le_trans hmid.length_le hl)
            simp only [hs, if_false]
            exact ⟨hrest.trans hmid, List.forall_mem_cons.2
              ⟨ht, fun t ht a ha => (hts t ht a ha).of_suffix hmid⟩⟩

theorem traces_oneOrMore (h : Traces value limit f) (n : Nat) :
    Traces value limit (.oneOrMore n f) := by
  intro ts t rest hl hf
  unfold Descent.oneOrMore at hf
  cases hm : f ts with
  | none => simp [hm] at hf
  | some taken =>
      obtain ⟨t', mid⟩ := taken
      obtain ⟨hmid, ht⟩ := h hl hm
      have list {more : List Tree} (hm : ∀ t ∈ more, ∀ a, t.Holds a → IsReadIn value ts a) :
          ∀ a, (Tree.list (t' :: more)).flatten.Holds a → IsReadIn value ts a := by
        intro a ha
        obtain ⟨t, htree, ha⟩ := ha.of_flatten.exists_mem
        exact (List.forall_mem_cons.2 ⟨ht, hm⟩) t htree a ha
      by_cases hs : mid.length = ts.length
      · simp only [hm, hs, if_true] at hf
        obtain ⟨rfl, rfl⟩ := Prod.mk.inj (Option.some.inj hf)
        exact ⟨hmid, list (List.forall_mem_nil _)⟩
      · simp only [hm, hs, if_false] at hf
        obtain ⟨rfl, rfl⟩ := Prod.mk.inj (Option.some.inj hf)
        obtain ⟨hrest, hts⟩ := traces_rounds h n (Nat.le_trans hmid.length_le hl)
        exact ⟨hrest.trans hmid, list fun t ht a ha => (hts t ht a ha).of_suffix hmid⟩

/-! ## Knobs, nodes and scripts -/

theorem traces_knobForm
    (hv : ∀ {ts v rest}, ts.length ≤ limit → value ts = some (v, rest) → rest <:+ ts) :
    Traces value limit (knobForm value) := by
  intro ts t rest hl h
  obtain ⟨n, mid, v, rfl, -, hm, hb⟩ := knobForm_eq_some.1 h
  obtain ⟨name, v', w, he, hw, rfl⟩ := Builder.buildAttribute_eq_ok hb
  obtain ⟨rfl, rfl⟩ : n = name ∧ v = v' := by simpa [Tree.items] using he
  have hmid := List.suffix_cons n mid
  refine ⟨(hv (Nat.le_of_succ_le hl) hm).trans hmid, fun a ha => ?_⟩
  obtain rfl := ha.eq_of_attribute
  exact ⟨mid, v, rest, hmid, hm, hw⟩

theorem traces_command : Traces value limit (read limit 1 "tcl_command") := by
  intro ts t rest hl h
  obtain ⟨taken, rfl, -, rfl⟩ := (reads_command limit 0).sound hl h
  refine ⟨List.suffix_append _ _, fun a ha => ?_⟩
  obtain ⟨t, ht, ha⟩ := ha.exists_mem
  obtain ⟨x, -, rfl⟩ := List.mem_map.1 ht
  exact absurd ha (Tree.not_holds_token x)

theorem traces_rule_node (h : ∀ f ∈ fs, Traces value limit f) :
    Traces value limit (.rule .standard "node" fs) := by
  intro ts t rest hl hf
  induction fs with
  | nil => cases hf
  | cons f fs ih =>
      obtain ⟨first, more⟩ := List.forall_mem_cons.1 h
      rcases Descent.rule_cons_eq_some.1 hf with ⟨inner, hi, hb⟩ | ⟨-, hf⟩
      · obtain ⟨hrest, ht⟩ := first hl hi
        obtain ⟨n, rfl, hn⟩ := Builder.isItem_of_buildNode hb
        exact ⟨hrest, fun a ha => ht a (.inl (hn a ha.mem_of_node))⟩
      · exact ih more hf

theorem traces_nodeForm {knobs command : List Descent} (hk : ∀ f ∈ knobs, Traces value limit f)
    (hc : ∀ f ∈ command, Traces value limit f) : Traces value limit (nodeForm knobs command) := by
  refine traces_sequence ?_
  simp only [List.forall_mem_cons, List.forall_mem_append]
  exact ⟨traces_one _, traces_one _, hk, traces_one _, hc⟩

theorem traces_anyNodeForm (h : Traces value limit (knobForm value)) :
    Traces value limit (anyNodeForm limit value) := by
  have knobs : Traces value limit (knobsForm limit value) :=
    traces_sequence (List.forall_mem_singleton.2 (traces_oneOrMore h limit))
  have some {f : Descent} (hf : Traces value limit f) : ∀ f' ∈ [f], Traces value limit f' :=
    List.forall_mem_singleton.2 hf
  have none : ∀ f' ∈ ([] : List Descent), Traces value limit f' := List.forall_mem_nil _
  refine traces_rule_node ?_
  simp only [List.forall_mem_cons]
  exact ⟨traces_nodeForm (some knobs) (some traces_command), traces_nodeForm (some knobs) none,
    traces_nodeForm none (some traces_command), traces_nodeForm none none, none⟩

theorem traces_scriptForm (h : Traces value limit (knobForm value)) :
    Traces value limit (scriptForm limit value) := by
  have statement : Traces value limit (statementForm limit value) :=
    traces_sequence (List.forall_mem_singleton.2
      (traces_alternation (traces_anyNodeForm h) traces_command))
  exact traces_sequence (List.forall_mem_singleton.2 (traces_oneOrMore statement limit))

/-- The knobs of a script are read in its tokens. -/
theorem isReadIn_of_scriptForm
    (hv : ∀ {ts v rest}, ts.length ≤ limit → value ts = some (v, rest) → rest <:+ ts)
    {t : Tree} (hl : ts.length ≤ limit) (h : scriptForm limit value ts = some (t, rest)) :
    ∀ n ∈ t.nodes, ∀ a ∈ n.attributes, IsReadIn value ts a :=
  fun n hn a ha => (traces_scriptForm (traces_knobForm hv) hl h).2 a
    (.inr ⟨n, Tree.isItem_of_mem_nodes t hn, ha⟩)

end Script

end NodeScript
