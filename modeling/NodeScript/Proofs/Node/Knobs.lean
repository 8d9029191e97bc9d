import NodeScript.Node.Basic
import NodeScript.Proofs.OrderedTable

/-!
# Knobs by name

The table of the knobs of a node and the search for a knob from the end give the same values: of
the knobs of one name the last counts. The names stand in the table in the order of these last
knobs.
-/

namespace NodeScript

/-- The knob stands at the place, and none of its name behind it. -/
def IsLastKnob (as : List Attribute) (place : Nat) (a : Attribute) : Prop :=
  ∃ before after, as = before ++ a :: after ∧ before.length = place ∧ ∀ b ∈ after, b.name ≠ a.name

variable {as : List Attribute} {a b : Attribute} {place : Nat}

theorem isLastKnob_concat_self (as : List Attribute) (a : Attribute) :
    IsLastKnob (as ++ [a]) as.length a :=
  ⟨as, [], rfl, rfl, List.forall_mem_nil _⟩

/-- A knob of another name behind them leaves last knobs where they are. -/
theorem IsLastKnob.concat (h : IsLastKnob as place a) (hne : a.name ≠ b.name) :
    IsLastKnob (as ++ [b]) place a := by
  obtain ⟨before, after, rfl, hp, ha⟩ := h
  refine ⟨before, after ++ [b], by simp, hp, List.forall_mem_append.2 ⟨ha, ?_⟩⟩
  rw [List.forall_mem_singleton]
  exact hne.symm

theorem IsLastKnob.lt_length (h : IsLastKnob as place a) : place < as.length := by
  obtain ⟨before, after, rfl, rfl, -⟩ := h
  simp

namespace Node

/-- What a search from the end finds is the last knob of its name. -/
theorem attribute?_eq_some_iff (n : Node) (name : String) (v : Value) :
    n.attribute? name = some v ↔
      ∃ place a, IsLastKnob n.attributes place a ∧ a.name = name ∧ a.value = v := by
  unfold attribute?
  simp only [Option.map_eq_some_iff, List.find?_eq_some_iff_append, beq_iff_eq,
    Bool.not_eq_true', beq_eq_false_iff_ne]
  constructor
  · rintro ⟨a, ⟨hn, after, before, hr, ha⟩, hv⟩
    refine ⟨before.length, a, ⟨before.reverse, after.reverse, ?_, by simp, by simpa [hn] using ha⟩,
      hn, hv⟩
    simpa using congrArg List.reverse hr
  · rintro ⟨place, a, ⟨before, after, hr, -, ha⟩, hn, hv⟩
    exact ⟨a, ⟨hn, after.reverse, before.reverse, by simp [hr], by simpa [hn] using ha⟩, hv⟩

theorem attributesByName_concat (n : Node) (a : Attribute) :
    attributesByName { n with attributes := n.attributes ++ [a] } =
      n.attributesByName.insert a.name a.value := by
  simp only [attributesByName, List.map_append, List.map_singleton]
  exact OrderedTable.insertAll_append .empty _ [(a.name, a.value)]

theorem nodup_attributesByName (n : Node) : n.attributesByName.keys.Nodup :=
  OrderedTable.nodup_insertAll (t := .empty) List.nodup_nil _

/-- The table has for a name what a search from the end finds. -/
theorem get?_attributesByName (n : Node) (name : String) :
    n.attributesByName.get? name = n.attribute? name := by
  obtain ⟨className, as, binding⟩ := n
  induction as using List.reverseRecOn with
  | nil => rfl
  | append_singleton as a ih =>
      rw [attributesByName_concat ⟨className, as, binding⟩ a, OrderedTable.get?_insert, ih]
      by_cases h : name = a.name
      · simp [attribute?, h]
      · simp [attribute?, h, Ne.symm h]

theorem contains_attributesByName_iff (n : Node) (name : String) :
    n.attributesByName.contains name ↔ ∃ a ∈ n.attributes, a.name = name := by
  rw [OrderedTable.contains, get?_attributesByName, attribute?, Option.isSome_map,
    List.find?_isSome]
  simp

theorem mem_keys_attributesByName (n : Node) {name : String} :
    name ∈ n.attributesByName.keys ↔
      ∃ place a, IsLastKnob n.attributes place a ∧ a.name = name := by
  rw [← OrderedTable.contains_iff_mem_keys, OrderedTable.contains, get?_attributesByName,
    Option.isSome_iff_exists]
  simp [attribute?_eq_some_iff]

/-- A knob set behind the others puts its name behind theirs, and leaves the last knobs of other
names in their order. -/
theorem pairwise_attributesByName (n : Node) : n.attributesByName.keys.Pairwise fun name name' =>
    ∃ i j a b, i < j ∧ IsLastKnob n.attributes i a ∧ a.name = name ∧
      IsLastKnob n.attributes j b ∧ b.name = name' := by
  obtain ⟨className, as, binding⟩ := n
  induction as using List.reverseRecOn with
  | nil => exact .nil
  | append_singleton as c ih =>
      rw [attributesByName_concat ⟨className, as, binding⟩ c, OrderedTable.keys_insert,
        List.pairwise_append]
      have other {name : String} {keys : List String} (h : name ∈ keys.filter (· != c.name)) :
          name ∈ keys ∧ name ≠ c.name := by simpa using h
      refine ⟨(ih.filter _).imp_of_mem ?_, List.pairwise_singleton _ _, ?_⟩
      · rintro name name' hm hm' ⟨i, j, a, b, hij, ha, rfl, hb, rfl⟩
        exact ⟨i, j, a, b, hij, ha.concat (other hm).2, rfl, hb.concat (other hm').2, rfl⟩
      · intro name hm name' hm'
        obtain rfl := List.mem_singleton.1 hm'
        obtain ⟨hk, hne⟩ := other hm
        obtain ⟨i, a, ha, rfl⟩ := (mem_keys_attributesByName _).1 hk
        exact ⟨i, as.length, a, c, ha.lt_length, ha.concat hne, rfl,
          isLastKnob_concat_self as c, rfl⟩

/-- The two ways to look up a knob agree. The table has a name when some knob has it, and for it
what a search from the end gives, which is the value of the last knob of the name. No name is in the
table twice, and the names stand in the order of their last knobs. -/
theorem attributesByName_agrees (n : Node) :
    (∀ name, n.attributesByName.contains name ↔ ∃ a ∈ n.attributes, a.name = name) ∧
    (∀ name, n.attributesByName.get? name = n.attribute? name) ∧
    (∀ name v, n.attribute? name = some v ↔
      ∃ place a, IsLastKnob n.attributes place a ∧ a.name = name ∧ a.value = v) ∧
    n.attributesByName.keys.Nodup ∧
    n.attributesByName.keys.Pairwise fun name name' =>
      ∃ i j a b, i < j ∧ IsLastKnob n.attributes i a ∧ a.name = name ∧
        IsLastKnob n.attributes j b ∧ b.name = name' :=
  ⟨n.contains_attributesByName_iff, n.get?_attributesByName, n.attribute?_eq_some_iff,
    n.nodup_attributesByName, n.pairwise_attributesByName⟩

example : (attributesByName ⟨"Dot", [⟨"a", .block "1"⟩, ⟨"b", .block "2"⟩, ⟨"a", .block "3"⟩],
    none⟩).keys = ["b", "a"] := by decide

end Node

end NodeScript
