import NodeScript.Proofs.Grammar.Heights

/-!
# Runs below the nesting limit

A run is spared when it never comes to the limit on nesting. What it gives then does not hang on
how deep rules may stand in one another: readings that agree with what it performs wherever it goes
next agree with what it gives. Two readings agree when they have the same successes.
-/

namespace NodeScript.Graph

namespace Machine

variable {g : Graph} {input : Input} {m m' : Machine}

/-- However far the machine goes, it fails no rule for want of depth. -/
def Spared (g : Graph) (input : Input) (m : Machine) : Prop :=
  ∀ count, ¬((step g input)^[count] m).IsAtLimit g

theorem Spared.leads (h : Spared g input m) (hl : Leads g input m m') : Spared g input m' := by
  obtain ⟨count, rfl⟩ := hl
  intro count'
  rw [← Function.iterate_add_apply]
  exact h (count' + count)

theorem Spared.next (h : Spared g input m) (hs : step g input m = m') : Spared g input m' :=
  h.leads ⟨1, hs⟩

/-! ## Readings of a node -/

variable {budget : Nat}

/-- Wherever the depth leaves a budget of rules, the machine comes from the node to what the
reading gives. -/
def Brings (g : Graph) (input : Input) (budget id : Nat) (read : Reading) : Prop :=
  ∀ position stack r, nestingLimit - r.depth = budget →
    ∃ d, Leads g input ⟨.node id position, stack, r⟩
      (give (read position) stack { r with diagnostics := d })

theorem Performs.brings {id : Nat} {f : Match} {read : Reading}
    (h : Performs g input budget id f) (hf : Match.Gives f read) :
    Brings g input budget id read := by
  intro position stack r hr
  refine ⟨(f position r.diagnostics).2, ?_⟩
  rw [← hf position r.diagnostics]
  exact h position stack r hr

/-- Wherever the depth leaves a budget of rules and the run from the node is spared, the reading
has the success that the other has. -/
def Agrees (g : Graph) (input : Input) (budget id : Nat) (read read' : Reading) : Prop :=
  ∀ position stack r, Spared g input ⟨.node id position, stack, r⟩ →
    nestingLimit - r.depth = budget → (read position).toOption = (read' position).toOption

/-- The machine brings the one reading from the node, and the other agrees with it. -/
structure Follows (g : Graph) (input : Input) (budget id : Nat) (read read' : Reading) : Prop where
  brings : Brings g input budget id read'
  agrees : Agrees g input budget id read read'

/-- What can become of a node that is spared: both readings succeed alike, or both fail and whoever
waits is spared when it goes on with the failure. -/
theorem Follows.outcome {id position : Nat} {read read' : Reading} {frame : Frame}
    {stack : List Frame} {r : Resolver} (h : Follows g input budget id read read')
    (hs : Spared g input ⟨.node id position, frame :: stack, r⟩)
    (hr : nestingLimit - r.depth = budget) :
    (∃ t next d, read position = .ok (t, next) ∧ read' position = .ok (t, next) ∧
      Spared g input (resume input frame (.ok (t, next)) stack { r with diagnostics := d })) ∨
    ∃ f f' d, read position = .error f ∧ read' position = .error f' ∧
      Spared g input (resume input frame (.error f') stack { r with diagnostics := d }) := by
  have agree := h.agrees position _ r hs hr
  obtain ⟨d, hd⟩ := h.brings position (frame :: stack) r hr
  have after := (hs.leads hd).next (step_give g input _ _ _ _)
  cases hread' : read' position with
  | ok success =>
      cases hread : read position with
      | ok success' =>
          rw [hread, hread'] at agree
          obtain rfl := Option.some.inj agree
          exact .inl ⟨_, _, d, rfl, rfl, hread' ▸ after⟩
      | error f => simp [hread, hread', Except.toOption] at agree
  | error f' =>
      cases hread : read position with
      | ok success => simp [hread, hread', Except.toOption] at agree
      | error f => exact .inr ⟨f, f', d, rfl, rfl, hread' ▸ after⟩

/-- The nodes of a list bring the readings of one list, with which those of the other agree. -/
inductive FollowAll (g : Graph) (input : Input) (budget : Nat) :
    List Nat → List Reading → List Reading → Prop
  | nil : FollowAll g input budget [] [] []
  | cons {id : Nat} {ids : List Nat} {read read' : Reading} {reads reads' : List Reading} :
    Follows g input budget id read read' → FollowAll g input budget ids reads reads' →
    FollowAll g input budget (id :: ids) (read :: reads) (read' :: reads')

section Nodes

variable {id : Nat} {reads reads' : List Reading}

theorem agrees_items {ids : List Nat} (h : FollowAll g input budget ids reads reads')
    (done : List Tree) (position : Nat) (stack : List Frame) (r : Resolver)
    (hs : Spared g input ⟨.items done ids position, stack, r⟩)
    (hr : nestingLimit - r.depth = budget) :
    (Reading.all reads position).toOption = (Reading.all reads' position).toOption := by
  induction h generalizing done position r with
  | nil => rfl
  | @cons id ids read read' reads reads' hf _ ih =>
      have hs := hs.next rfl
      rcases hf.outcome hs hr with ⟨t, next, d, ho, ho', after⟩ | ⟨f, f', d, ho, ho', after⟩
      · have later := ih (t :: done) next { r with diagnostics := d } after hr
        simp only [Reading.all, ho, ho']
        cases hread : Reading.all reads next <;> cases hread' : Reading.all reads' next <;>
          simp_all [Except.toOption]
      · simp only [Reading.all, ho, ho']
        rfl

theorem agrees_sequence {ids : List Nat} (hn : g.nodes[id]? = some (.sequence ids))
    (h : FollowAll g input budget ids reads reads') :
    Agrees g input budget id (.sequence reads) (.sequence reads') := by
  intro position stack r hs hr
  have hs : Spared g input ⟨.items [] ids position, stack, r⟩ := hs.next (by simp only [step, hn])
  have all := agrees_items h [] position stack r hs hr
  simp only [Reading.sequence]
  cases hread : Reading.all reads position <;> cases hread' : Reading.all reads' position <;>
    simp_all [Except.toOption, Except.map]

theorem agrees_alternatives {ids : List Nat} (h : FollowAll g input budget ids reads reads')
    (name : String) (position : Nat) (stack : List Frame) (r : Resolver)
    (hs : Spared g input ⟨.alternatives name ids position, stack, r⟩)
    (hr : nestingLimit - r.depth = budget) :
    (Reading.rule input name reads position).toOption =
      (Reading.rule input name reads' position).toOption := by
  induction h generalizing r with
  | nil => rfl
  | @cons id ids read read' reads reads' hf _ ih =>
      have hs := hs.next rfl
      rcases hf.outcome hs hr with ⟨t, next, d, ho, ho', after⟩ | ⟨f, f', d, ho, ho', after⟩
      · simp only [Reading.rule, ho, ho']
        simp only [resume] at after
        cases hb : input.builders.build name t with
        | ok built => rfl
        | error e =>
            simp only [hb] at after
            exact ih _ after hr
      · simp only [Reading.rule, ho, ho']
        exact ih _ after hr

theorem agrees_rule {name : String} {ids : List Nat}
    (hn : g.nodes[id]? = some (.composite name ids))
    (h : FollowAll g input budget ids reads reads') :
    Agrees g input (budget + 1) id (.rule input name reads) (.rule input name reads') := by
  intro position stack r hs hr
  -- the depth has left room, so the rule is entered
  have room : ¬nestingLimit ≤ r.depth := by omega
  have hs : Spared g input
      ⟨.alternatives name ids position, .rule :: stack, { r with depth := r.depth + 1 }⟩ :=
    hs.next (by simp only [step, hn, room, if_false])
  exact agrees_alternatives h name position _ _ hs (by simp only; omega)

/-- With the limit used up no rule is spared. -/
theorem agrees_limit {name : String} {ids : List Nat}
    (hn : g.nodes[id]? = some (.composite name ids)) (read read' : Reading) :
    Agrees g input 0 id read read' := by
  intro position stack r hs hr
  exact absurd ⟨id, position, name, ids, rfl, hn, Nat.le_of_sub_eq_zero hr⟩ (hs 0)

theorem agrees_alternation {i j : Nat} {left left' right right' : Reading}
    (hn : g.nodes[id]? = some (.alternation i j)) (hl : Follows g input budget i left left')
    (hr : Follows g input budget j right right') :
    Agrees g input budget id (.alternation left right) (.alternation left' right') := by
  intro position stack r hs hb
  have hs : Spared g input ⟨.node i position, .left j position :: stack, r⟩ :=
    hs.next (by simp only [step, hn])
  rcases hl.outcome hs hb with ⟨t, next, d, ho, ho', -⟩ | ⟨f, f', d, ho, ho', after⟩
  · simp only [Reading.alternation, ho, ho']
  · simp only [Reading.alternation, ho, ho']
    exact hr.agrees position stack _ after hb

theorem agrees_rounds {item : Nat} {read read' : Reading}
    (h : Follows g input budget item read read') (limit : Nat) (t : Tree) (done : List Tree)
    (position : Nat) (stack : List Frame) (r : Resolver)
    (hs : Spared g input ⟨.round (t :: done) item position, stack, r⟩)
    (hr : nestingLimit - r.depth = budget) :
    Reading.rounds read limit position = Reading.rounds read' limit position := by
  induction limit generalizing t done position r with
  | zero => rfl
  | succ limit ih =>
      have hs := hs.next rfl
      rcases h.outcome hs hr with ⟨t', next, d, ho, ho', after⟩ | ⟨f, f', d, ho, ho', -⟩
      · simp only [Reading.rounds, ho, ho']
        by_cases hp : next = position
        · simp only [hp, if_true]
        · simp only [resume, hp, if_false] at after
          simp only [hp, if_false, ih t' (t :: done) next _ after hr]
      · simp only [Reading.rounds, ho, ho']

theorem agrees_repetition {item : Nat} {read read' : Reading}
    (hn : g.nodes[id]? = some (.repetition item)) (h : Follows g input budget item read read')
    (limit : Nat) :
    Agrees g input budget id (.oneOrMore limit read) (.oneOrMore limit read') := by
  intro position stack r hs hr
  have hs : Spared g input ⟨.round [] item position, stack, r⟩ :=
    hs.next (by simp only [step, hn])
  rcases h.outcome (hs.next rfl) hr with ⟨t, next, d, ho, ho', after⟩ | ⟨f, f', d, ho, ho', -⟩
  · simp only [Reading.oneOrMore, ho, ho']
    by_cases hp : next = position
    · simp only [hp, if_true]
    · simp only [resume, hp, if_false] at after
      simp only [hp, if_false, agrees_rounds h limit t [] next stack _ after hr]
  · simp only [Reading.oneOrMore, ho, ho']
    rfl

end Nodes

end Machine

/-! ## Compiled graphs -/

variable {g : Graph} {table : RuleTable} {tokens : TokenTable} {input : Input}

/-- The machine comes from a node to what reading its phrase gives. -/
theorem Denotes.brings (h : compile table tokens = .ok g) (budget : Nat) {p : Phrase} {id : Nat}
    (hp : g.Denotes tokens p id) :
    Machine.Brings g input budget id
      (p.read tokens input (table.evaluate tokens input budget)) := by
  obtain ⟨d, rfl, hg, -⟩ := compile_grows h
  have hid : id < d.nodes.size := hg.sound.lt_size hp
  refine (Machine.performs_resolveWithin (compile_isLayered h) input budget hid).brings ?_
  rw [resolveWithin_eq_walk]
  exact walk_denotes (enterRule_enters h input budget) hp hid

/-- The machine comes from the node of an alternative to what reading the alternative gives. -/
theorem DenotesParts.brings (h : compile table tokens = .ok g) (budget : Nat) {parts : Alternative}
    {id : Nat} (hp : g.DenotesParts table tokens parts id) :
    Machine.Brings g input budget id
      (table.readAlternative tokens input (table.evaluate tokens input budget) parts) := by
  have hid : id < g.nodes.size := by
    obtain ⟨phrases, ids, -, hn, -⟩ := hp
    exact (Array.getElem?_eq_some_iff.1 hn).1
  refine (Machine.performs_resolveWithin (compile_isLayered h) input budget hid).brings ?_
  rw [resolveWithin_eq_walk]
  exact walk_denotesParts (enterRule_enters h input budget) hp

end NodeScript.Graph
