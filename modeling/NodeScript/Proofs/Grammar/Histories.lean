import NodeScript.Proofs.Grammar.Outcomes
import NodeScript.Proofs.Grammar.Termination

/-!
# Resolvers forget

A resolver is used for many calls, and keeps its depth and its record of failures from one to the
next. Whatever it has been used for, every call answers as the call of a fresh resolver does.
-/

namespace NodeScript

namespace Match

variable {input : Input}

/-- What the match gives where nothing has been recorded. -/
def reading (m : Match) : Reading :=
  fun position => (m position .empty).1

/-- What has been recorded makes no difference to what the match gives. -/
def Forgets (m : Match) : Prop :=
  Gives m m.reading

theorem Gives.forgets {m : Match} {r : Reading} (h : Gives m r) : Forgets m :=
  fun position d => (h position d).trans (h position .empty).symm

theorem forgets_map {α : Type} {f : α → Match} {xs : List α} (h : ∀ x ∈ xs, Forgets (f x)) :
    List.Forall₂ Gives (xs.map f) (xs.map fun x => (f x).reading) :=
  List.forall₂_map_left_iff.2 (List.forall₂_map_right_iff.2 (List.forall₂_same.2 h))

end Match

namespace Graph

open Match (Forgets)
open Machine (Leads give step finish)

variable {g : Graph} {input : Input}

theorem walk_forgets {enter : String → List Nat → Match}
    (he : ∀ name alternatives, Forgets (enter name alternatives)) (limit id : Nat) :
    Forgets (g.walk input enter limit id) := by
  induction limit generalizing id with
  | zero => exact (Match.gives_fail _).forgets
  | succ limit ih =>
      unfold walk
      cases g.nodes[id]? with
      | none => exact (Match.gives_fail _).forgets
      | some node =>
          cases node with
          | composite name alternatives => exact he name alternatives
          | sequence items =>
              exact (Match.gives_sequence (Match.forgets_map fun id _ => ih id)).forgets
          | alternation i j => exact (Match.gives_alternation (ih i) (ih j)).forgets
          | repetition item => exact (Match.gives_oneOrMore (ih item) _).forgets
          | literal text => exact (Match.gives_one _ _).forgets
          | terminal name row => exact (Match.gives_one _ _).forgets

theorem resolveWithin_forgets (g : Graph) (input : Input) (budget id : Nat) :
    Forgets (g.resolveWithin input budget id) := by
  induction budget generalizing id with
  | zero => exact walk_forgets (fun _ _ => (Match.gives_fail _).forgets) _ _
  | succ budget ih =>
      refine walk_forgets (fun name alternatives => ?_) _ _
      exact (Match.gives_rule name (Match.forgets_map fun id _ => ih id)).forgets

/-! ## Calls -/

/-- The call for a node at a position comes back with an outcome, and leaves a resolver. -/
def Returns (g : Graph) (input : Input) (id position : Nat) (r : Resolver) (out : Outcome)
    (r' : Resolver) : Prop :=
  Leads g input ⟨.node id position, [], r⟩ (give out [] r')

/-- The resolvers that any calls and records lead to. -/
inductive Reachable (g : Graph) (input : Input) : Resolver → Prop
  | fresh : Reachable g input .fresh
  | resolve {id position : Nat} {r r' : Resolver} {out : Outcome} : Reachable g input r →
    Returns g input id position r out r' → Reachable g input r'
  | record {r : Resolver} (f : Failure) : Reachable g input r → Reachable g input (r.record f)

theorem Returns.unique {id position : Nat} {r r₁ r₂ : Resolver} {out₁ out₂ : Outcome}
    (h₁ : Returns g input id position r out₁ r₁) (h₂ : Returns g input id position r out₂ r₂) :
    out₁ = out₂ ∧ r₁ = r₂ := by
  have same : give out₁ [] r₁ = give out₂ [] r₂ := Leads.unique h₁ h₂ rfl rfl
  cases same
  exact ⟨rfl, rfl⟩

/-- No call comes back from a node that is not there. -/
theorem Returns.id_lt {id position : Nat} {r r' : Resolver} {out : Outcome}
    (h : Returns g input id position r out r') : id < g.nodes.size := by
  by_contra hid
  have hn : g.nodes[id]? = none := Array.getElem?_eq_none (Nat.not_lt.1 hid)
  have stuck : step g input ⟨.node id position, [], r⟩ = ⟨.node id position, [], r⟩ := by
    simp only [step, hn]
  cases Leads.unique h .refl rfl stuck

theorem returns_resolveWithin (hg : IsLayered g.nodes) (input : Input) {id : Nat}
    (hid : id < g.nodes.size) (position : Nat) (r : Resolver) :
    let f := g.resolveWithin input (nestingLimit - r.depth) id
    Returns g input id position r (f.reading position)
      { r with diagnostics := (f position r.diagnostics).2 } := by
  intro f
  rw [← resolveWithin_forgets g input _ id position r.diagnostics]
  exact Machine.performs_resolveWithin hg input _ hid position [] r rfl

theorem Reachable.depth_eq (hg : IsLayered g.nodes) {r : Resolver} (h : Reachable g input r) :
    r.depth = 0 := by
  induction h with
  | fresh => rfl
  | resolve _ hr ih =>
      obtain ⟨-, rfl⟩ := hr.unique (returns_resolveWithin hg input hr.id_lt _ _)
      exact ih
  | record f _ ih => exact ih

/-- A call answers with an outcome. -/
def Answers (g : Graph) (input : Input) (id position : Nat) (r : Resolver) (out : Outcome) : Prop :=
  ∃ r', Returns g input id position r out r'

theorem Reachable.answers_iff (hg : IsLayered g.nodes) {id : Nat} (hid : id < g.nodes.size)
    {r : Resolver} (h : Reachable g input r) (position : Nat) (out : Outcome) :
    Answers g input id position r out ↔ out = (g.resolve input id).reading position := by
  have returns := returns_resolveWithin hg input hid position r
  rw [h.depth_eq hg] at returns
  constructor
  · rintro ⟨r', hr⟩
    exact (hr.unique returns).1
  · rintro rfl
    exact ⟨_, returns⟩

variable {table : RuleTable} {tokens : TokenTable}

/-- What a resolver of a compiled graph has been used for never shows. Every call, those made within
other calls included, comes back and leaves the depth as it was, and any two resolvers, whatever
calls and records they have been used for, answer the same. -/
theorem resolvers_agree (h : compile table tokens = .ok g) (input : Input) {id : Nat}
    (hid : id < g.nodes.size) (position : Nat) :
    (∀ stack r, ∃ out r', Leads g input ⟨.node id position, stack, r⟩ (give out stack r') ∧
      r'.depth = r.depth) ∧
    ∀ r₁ r₂, Reachable g input r₁ → Reachable g input r₂ → ∃ out, ∀ a,
      (Answers g input id position r₁ a ↔ a = out) ∧
        (Answers g input id position r₂ a ↔ a = out) := by
  have layered : IsLayered g.nodes := compile_isLayered h
  constructor
  · intro stack r
    exact ⟨_, _, Machine.performs_resolveWithin layered input _ hid position stack r rfl, rfl⟩
  · intro r₁ r₂ h₁ h₂
    exact ⟨_, fun a => ⟨h₁.answers_iff layered hid position a,
      h₂.answers_iff layered hid position a⟩⟩

/-- A fresh resolver, and one that has tried a rule beyond the end and taken a failure on top. -/
theorem resolvers_agree_loops : ∃ g, compile loops ⟨[]⟩ = .ok g ∧ 0 < g.nodes.size ∧
    ∃ r, Reachable g ⟨#[], .empty⟩ r ∧ r ≠ .fresh ∧ ∃ out, ∀ a,
      (Answers g ⟨#[], .empty⟩ 0 7 .fresh a ↔ a = out) ∧
        (Answers g ⟨#[], .empty⟩ 0 7 r a ↔ a = out) := by
  have compiles := isOk_compile_loops
  match h : compile loops ⟨[]⟩ with
  | .error e => simp [h, Except.toBool] at compiles
  | .ok g =>
      let input : Input := ⟨#[], .empty⟩
      have hid : 0 < g.nodes.size := compile_size_pos h (by decide : loops.contains "loop")
      have tried := returns_resolveWithin (compile_isLayered h) input hid 7 .fresh
      have used : Reachable g input _ := .record (input.failure "more" 9) (.resolve .fresh tried)
      refine ⟨g, rfl, hid, _, used, ?_, (resolvers_agree h input hid 7).2 _ _ .fresh used⟩
      intro same
      have : 9 ≤ 0 := by
        calc 9 ≤ _ := Nat.le_max_right _ 9
          _ = 0 := congrArg (fun r => r.diagnostics.furthest) same
      omega

end Graph

end NodeScript
