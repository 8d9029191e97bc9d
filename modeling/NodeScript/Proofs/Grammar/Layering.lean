import NodeScript.Proofs.OrderedTable
import NodeScript.Script.Setup

/-!
# Layers of rules

Of grammars laid over one another, the last that has a rule decides on it, and where it stands. How
the layers are grouped makes no difference.
-/

namespace NodeScript

namespace RuleTable

/-- The names of tables laid over one another: of each table those that no later one has. -/
def namesByLast : List RuleTable → List String
  | [] => []
  | t :: later => t.keys.filter (fun name => !later.any (·.contains name)) ++ namesByLast later

/-- The alternatives of a rule in the last of tables that has it. -/
def lastAlternatives? (tables : List RuleTable) (name : String) : Option (List Alternative) :=
  tables.reverse.findSome? (·.get? name)

theorem lastAlternatives?_cons (t : RuleTable) (later : List RuleTable) (name : String) :
    lastAlternatives? (t :: later) name = (lastAlternatives? later name).or (t.get? name) := by
  rw [lastAlternatives?, List.reverse_cons, List.findSome?_append, List.findSome?_singleton]
  rfl

variable {base : RuleTable} {layers : List RuleTable}

theorem get?_layers (h : ∀ t ∈ layers, t.keys.Nodup) (name : String) :
    (layers.foldl layer base).get? name = lastAlternatives? (base :: layers) name := by
  induction layers generalizing base with
  | nil => simp [lastAlternatives?]
  | cons t layers ih =>
      obtain ⟨ht, hl⟩ := List.forall_mem_cons.1 h
      rw [List.foldl_cons, ih hl, lastAlternatives?_cons, lastAlternatives?_cons,
        lastAlternatives?_cons, Option.or_assoc]
      congr 1
      exact OrderedTable.get?_insertAll base ht name

theorem keys_layers (h : ∀ t ∈ layers, t.keys.Nodup) :
    (layers.foldl layer base).keys = namesByLast (base :: layers) := by
  induction layers generalizing base with
  | nil => simp [namesByLast]
  | cons t layers ih =>
      obtain ⟨ht, hl⟩ := List.forall_mem_cons.1 h
      have laid : (base.layer t).keys = base.keys.filter (!t.contains ·) ++ t.keys :=
        OrderedTable.keys_insertAll base ht
      rw [List.foldl_cons, ih hl, namesByLast, laid, List.filter_append, List.filter_filter,
        List.append_assoc, namesByLast, namesByLast]
      congr 2
      simp [Bool.and_comm]

theorem nodup_layers (h : base.keys.Nodup) : (layers.foldl layer base).keys.Nodup := by
  induction layers generalizing base with
  | nil => exact h
  | cons t layers ih => exact ih (OrderedTable.nodup_insertAll h t)

/-! ## Tables that are read -/

theorem nodup_push {table : RuleTable} (h : table.keys.Nodup) (name : String)
    (parts : Alternative) : (table.push name parts).keys.Nodup := by
  unfold push OrderedTable.alter
  split
  · have same : (fun e : String × List Alternative =>
        (if e.1 = name then (e.1, e.2 ++ [parts]) else e).1) = Prod.fst := by
      funext e
      split <;> rfl
    rwa [OrderedTable.keys, List.map_map, Function.comp_def, same]
  · next hc =>
      have new : name ∉ table.keys := mt OrderedTable.contains_iff_mem_keys.2 hc
      rw [OrderedTable.keys, List.map_append]
      exact h.append (List.nodup_singleton name) (by simpa using new)

theorem nodup_addLines {table table' : RuleTable} {line : Nat} {lines : List (List Char)}
    (h : table.keys.Nodup) (hr : addLines table line lines = .ok table') : table'.keys.Nodup := by
  fun_induction addLines table line lines with
  | case1 table => exact Except.ok.inj hr ▸ h
  | case2 table line text rest _ _ ih => exact ih h hr
  | case3 => cases hr
  | case4 table line text rest _ _ name parts _ ih => exact ih (nodup_push h name parts) hr

theorem nodup_of_read {source : String} {table : RuleTable} (h : read source = .ok table) :
    table.keys.Nodup := by
  have first : (OrderedTable.empty : RuleTable).keys.Nodup := List.nodup_nil
  exact nodup_addLines first h

/-- Layering overrides by the last layer, however the layers are grouped. A rule has the
alternatives of the last table that has it, the names stand in the order of the tables that have
them last, and within a table in its order, and no name stands twice. A table that is itself two
tables, one laid over the other, is laid over a third as the two are, one after the other. -/
theorem layers_override (base : RuleTable) (layers : List RuleTable)
    (h : ∀ t ∈ base :: layers, t.keys.Nodup) :
    (∀ name, (layers.foldl layer base).get? name = lastAlternatives? (base :: layers) name) ∧
    (layers.foldl layer base).keys = namesByLast (base :: layers) ∧
    (layers.foldl layer base).keys.Nodup ∧
    ∀ t b c : RuleTable, t.layer (b.layer c) = (t.layer b).layer c := by
  obtain ⟨hbase, hlayers⟩ := List.forall_mem_cons.1 h
  exact ⟨get?_layers hlayers, keys_layers hlayers, nodup_layers hbase, OrderedTable.insertAll_assoc⟩

/-- Three layers, of which the second has a rule of the first and the third one of each. -/
theorem layers_override_pairs :
    let first : RuleTable := ⟨[("x", [[.symbol "INT"], [.symbol "WORD"]]), ("y", [[.literal "a"]])]⟩
    let second : RuleTable := ⟨[("z", [[.symbol "y"]]), ("x", [[.literal "b"]])]⟩
    let third : RuleTable := ⟨[("y", [[.literal "c"]]), ("z", [])]⟩
    (∀ t ∈ [first, second, third], t.keys.Nodup) ∧
    ([second, third].foldl layer first).get? "x" = some [[.literal "b"]] ∧
    ([second, third].foldl layer first).keys = ["x", "y", "z"] ∧
    first.layer (second.layer third) = (first.layer second).layer third := by
  intro first second third
  have nodup : ∀ t ∈ [first, second, third], t.keys.Nodup := by decide
  obtain ⟨last, order, -, grouped⟩ := layers_override first [second, third] nodup
  exact ⟨nodup, (last "x").trans rfl, order.trans rfl, grouped first second third⟩

end RuleTable

/-! ## Sources -/

namespace ParserSetup

variable {m : Type → Type} [Monad m]

/-- The grammars of sources in order, up to the first that cannot be read. -/
def readGrammars (fs : FileSystem m) : List Source → m (Except GrammarError (List RuleTable))
  | [] => return .ok []
  | s :: rest => do
    match ← readGrammar fs s with
    | .error e => return .error e
    | .ok t => return (← readGrammars fs rest).map (t :: ·)

/-- A parser's sources are its layers: they are laid over one another in order. -/
theorem layer_eq_foldl [LawfulMonad m] (fs : FileSystem m) (rules : RuleTable)
    (sources : List Source) : layer fs rules sources =
      (fun read => read.map (·.foldl RuleTable.layer rules)) <$> readGrammars fs sources := by
  induction sources generalizing rules with
  | nil => simp [layer, readGrammars, Except.map]
  | cons s rest ih =>
      simp only [layer, readGrammars, map_bind]
      congr 1
      funext read
      cases read with
      | error e => simp [Except.map]
      | ok t =>
          simp only [ih, map_bind, map_pure]
          rw [map_eq_pure_bind]
          congr 1
          funext later
          cases later <;> rfl

end ParserSetup

end NodeScript
