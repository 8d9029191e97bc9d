import NodeScript.Proofs.Grammar.Derivations
import NodeScript.Proofs.Grammar.Histories
import NodeScript.Proofs.Token.Table
import NodeScript.Script.Parser

/-!
# The record of failures

A failure that the machine makes is handed on until someone records it, or until there is no one
left and the call returns it. None is dropped on the way and none is recorded twice: what has been
made so far is what has been recorded so far, in the same order, and then the failure that is being
handed on, if there is one (`created_eq`). The diagnostics show what has been recorded.
-/

namespace NodeScript

namespace Diagnostics

/-- The trace is the latest of the failures in a log, which has the latest first, and the furthest
position is that of all of them. -/
structure Shows (d : Diagnostics) (log : List Failure) : Prop where
  trace : d.trace = log.take traceLimit
  furthest : d.furthest = (log.map Failure.position).max?.getD 0

variable {d : Diagnostics} {log : List Failure}

theorem shows_empty : empty.Shows [] :=
  ⟨rfl, rfl⟩

theorem Shows.record (h : d.Shows log) (f : Failure) : (d.record f).Shows (f :: log) := by
  constructor
  · simp [Diagnostics.record, h.trace, traceLimit, List.take_take]
  · cases hm : (log.map Failure.position).max? with
    | none => simp [Diagnostics.record, h.furthest, hm, List.max?_cons]
    | some furthest =>
        simp [Diagnostics.record, h.furthest, hm, List.max?_cons, Nat.max_comm]

theorem Shows.max?_eq {f : Failure} (h : d.Shows (f :: log)) :
    ((f :: log).map Failure.position).max? = some d.furthest := by
  rw [h.furthest, List.map_cons, List.max?_cons, Option.getD_some]

theorem Shows.foldl (h : d.Shows log) (fs : List Failure) :
    (fs.foldl Diagnostics.record d).Shows (fs.reverse ++ log) := by
  induction fs generalizing d log with
  | nil => exact h
  | cons f fs ih => simpa using ih (h.record f)

end Diagnostics

namespace Graph

/-- The failure that an outcome is. -/
def failureOf : Outcome → List Failure
  | .ok _ => []
  | .error f => [f]

namespace Machine

/-- The failure that is being handed on. -/
def held : Machine → List Failure
  | ⟨.outcome out, _, _⟩ => failureOf out
  | _ => []

/-- The refusal of a tree by the builder of a rule. -/
def refusal (input : Input) (name : String) (position : Nat) (t : Tree) : List Failure :=
  match input.builders.build name t with
  | .ok _ => []
  | .error e => [input.failure (name ++ " (" ++ e.message ++ ")") position]

/-- The failures that the next step makes: a rule beyond the limit, a token that is not as it should
be, a rule without more alternatives, or a tree that a builder refuses. -/
def created (g : Graph) (input : Input) : Machine → List Failure
  | ⟨.node id position, _, r⟩ =>
    match g.nodes[id]? with
    | some (.composite name _) =>
      if nestingLimit ≤ r.depth then [input.failure (name ++ " (recursion limit)") position] else []
    | some (.literal text) =>
      failureOf (Match.one input (Text.quoted text) (·.text == text) position r.diagnostics).1
    | some (.terminal name row) =>
      failureOf (Match.one input name (fun t => row.any (·.accepts t.text)) position
        r.diagnostics).1
    | _ => []
  | ⟨.alternatives name [] position, _, _⟩ => [input.failure name position]
  | ⟨.outcome (.ok (t, _)), .alternative name _ position :: _, _⟩ => refusal input name position t
  | _ => []

/-- The failures that the next step records. -/
def recorded (input : Input) : Machine → List Failure
  | ⟨.outcome (.error f), .left _ _ :: _, _⟩ => [f]
  | ⟨.outcome (.error f), .round (_ :: _) _ _ :: _, _⟩ => [f]
  | ⟨.outcome (.error f), .alternative _ _ _ :: _, _⟩ => [f]
  | ⟨.outcome (.ok (t, _)), .alternative name _ position :: _, _⟩ => refusal input name position t
  | _ => []

variable {g : Graph} {input : Input}

/-- From a machine to the next, what is held and what is made is recorded or held on, and the
diagnostics change by what is recorded. -/
def Accounts (g : Graph) (input : Input) (m m' : Machine) : Prop :=
  m.held ++ m.created g input = m.recorded input ++ m'.held ∧
    m'.resolver.diagnostics =
      (m.recorded input).foldl Diagnostics.record m.resolver.diagnostics

theorem accounts_resume (frame : Frame) (out : Outcome) (stack : List Frame) (r : Resolver) :
    Accounts g input ⟨.outcome out, frame :: stack, r⟩ (resume input frame out stack r) := by
  cases frame with
  | item done rest => cases out <;> exact ⟨rfl, rfl⟩
  | left right position => cases out <;> exact ⟨rfl, rfl⟩
  | round done item position =>
      cases out with
      | ok success =>
          simp only [resume]
          split <;> exact ⟨rfl, rfl⟩
      | error f => cases done <;> exact ⟨rfl, rfl⟩
  | alternative name rest position =>
      cases out with
      | error f => exact ⟨rfl, rfl⟩
      | ok success =>
          obtain ⟨t, next⟩ := success
          -- a refusal is made and recorded in the same step
          simp only [Accounts, held, created, recorded, refusal, resume]
          cases input.builders.build name t <;> exact ⟨rfl, rfl⟩
  | rule => cases out <;> exact ⟨rfl, rfl⟩

theorem accounts_step (g : Graph) (input : Input) (m : Machine) :
    Accounts g input m (step g input m) := by
  obtain ⟨task, stack, r⟩ := m
  cases task with
  | node id position =>
      simp only [Accounts, held, created, recorded, step]
      cases g.nodes[id]? with
      | none => exact ⟨rfl, rfl⟩
      | some node =>
          cases node with
          | composite name ids =>
              simp only
              split <;> exact ⟨rfl, rfl⟩
          | sequence items => exact ⟨rfl, rfl⟩
          | alternation left right => exact ⟨rfl, rfl⟩
          | repetition item => exact ⟨rfl, rfl⟩
          | literal text => exact ⟨rfl, rfl⟩
          | terminal name row => exact ⟨rfl, rfl⟩
  | items done rest position => cases rest <;> exact ⟨rfl, rfl⟩
  | round done item position => exact ⟨rfl, rfl⟩
  | alternatives name rest position => cases rest <;> exact ⟨rfl, rfl⟩
  | outcome out =>
      cases stack with
      | nil => cases out <;> exact ⟨rfl, rfl⟩
      | cons frame stack => exact accounts_resume frame out stack r

/-! ## Runs -/

/-- What the first steps of a run bring, one after the other. -/
def during (events : Machine → List Failure) (g : Graph) (input : Input) :
    (count : Nat) → Machine → List Failure
  | 0, _ => []
  | count + 1, m => events m ++ during events g input count (step g input m)

/-- The failures made in the first steps of a run. -/
def createdIn (g : Graph) (input : Input) : Nat → Machine → List Failure :=
  during (created g input) g input

/-- The failures recorded in the first steps of a run. -/
def recordedIn (g : Graph) (input : Input) : Nat → Machine → List Failure :=
  during (recorded input) g input

theorem held_append_createdIn (g : Graph) (input : Input) (count : Nat) (m : Machine) :
    m.held ++ createdIn g input count m =
      recordedIn g input count m ++ ((step g input)^[count] m).held := by
  induction count generalizing m with
  | zero => exact List.append_nil _
  | succ count ih =>
      obtain ⟨first, -⟩ := accounts_step g input m
      have rest := ih (step g input m)
      simp only [createdIn, recordedIn] at rest ⊢
      rw [during, during, Function.iterate_succ_apply, List.append_assoc, ← rest,
        ← List.append_assoc, first, List.append_assoc]

theorem diagnostics_iterate (g : Graph) (input : Input) (count : Nat) (m : Machine) :
    ((step g input)^[count] m).resolver.diagnostics =
      (recordedIn g input count m).foldl Diagnostics.record m.resolver.diagnostics := by
  induction count generalizing m with
  | zero => rfl
  | succ count ih =>
      simp only [recordedIn] at ih ⊢
      obtain ⟨-, first⟩ := accounts_step g input m
      rw [during, Function.iterate_succ_apply, ih, first, List.foldl_append]

/-- From where nothing is handed on, what has been made has been recorded, but for what is handed
on now. -/
theorem created_eq (g : Graph) (input : Input) {m : Machine} (h : m.held = []) (count : Nat) :
    createdIn g input count m =
      recordedIn g input count m ++ ((step g input)^[count] m).held := by
  have account := held_append_createdIn g input count m
  rwa [h, List.nil_append] at account

/-- The diagnostics show what has been recorded before and since. -/
theorem shows_iterate (g : Graph) (input : Input) {m : Machine} {log : List Failure}
    (h : m.resolver.diagnostics.Shows log) (count : Nat) :
    ((step g input)^[count] m).resolver.diagnostics.Shows
      ((recordedIn g input count m).reverse ++ log) := by
  rw [diagnostics_iterate]
  exact h.foldl _

end Machine

open Machine (createdIn give recordedIn step)

variable {g : Graph} {input : Input}

/-! ## Calls -/

/-- The resolvers that any calls and records lead to, each with all failures that were recorded, the
latest first. -/
inductive History (g : Graph) (input : Input) : Resolver → List Failure → Prop
  | fresh : History g input .fresh []
  | resolve {id position count : Nat} {r r' : Resolver} {out : Outcome} {log : List Failure} :
    History g input r log → (step g input)^[count] ⟨.node id position, [], r⟩ = give out [] r' →
    History g input r' ((recordedIn g input count ⟨.node id position, [], r⟩).reverse ++ log)
  | record {r : Resolver} {log : List Failure} (f : Failure) : History g input r log →
    History g input (r.record f) (f :: log)

theorem History.shows {r : Resolver} {log : List Failure} (h : History g input r log) :
    r.diagnostics.Shows log := by
  induction h with
  | fresh => exact Diagnostics.shows_empty
  | @resolve id position count r r' out log _ hr ih =>
      have shows := Machine.shows_iterate g input (m := ⟨.node id position, [], r⟩) ih count
      rw [hr] at shows
      exact shows
  | record f _ ih => exact ih.record f

theorem Reachable.exists_history {r : Resolver} (h : Reachable g input r) :
    ∃ log, History g input r log := by
  induction h with
  | fresh => exact ⟨[], .fresh⟩
  | resolve _ hr ih =>
      obtain ⟨log, hlog⟩ := ih
      obtain ⟨count, hc⟩ := hr
      exact ⟨_, .resolve hlog hc⟩
  | record f _ ih =>
      obtain ⟨log, hlog⟩ := ih
      exact ⟨f :: log, .record f hlog⟩

/-- The account of a call, from its start on. -/
structure KeepsAccount (g : Graph) (input : Input) (start : Machine) (log : List Failure) :
    Prop where
  /-- At every moment the diagnostics show what has been recorded, before the call and in it. -/
  shows : ∀ count, ((step g input)^[count] start).resolver.diagnostics.Shows
    ((recordedIn g input count start).reverse ++ log)
  /-- At every moment the failures made in the call have been recorded once each, in their order,
  but for one that is being handed on. -/
  created : ∀ count, createdIn g input count start =
    recordedIn g input count start ++ ((step g input)^[count] start).held
  /-- The call comes back, and has recorded all failures made in it but for the one it returns. -/
  returned : ∃ count out r, (step g input)^[count] start = give out [] r ∧
    createdIn g input count start = recordedIn g input count start ++ failureOf out

theorem keepsAccount (hg : IsLayered g.nodes) {id : Nat} (hid : id < g.nodes.size)
    (position : Nat) {r : Resolver} {log : List Failure} (h : r.diagnostics.Shows log) :
    KeepsAccount g input ⟨.node id position, [], r⟩ log := by
  have created := Machine.created_eq g input (m := ⟨.node id position, [], r⟩) rfl
  refine ⟨Machine.shows_iterate g input h, created, ?_⟩
  obtain ⟨count, hc⟩ := returns_resolveWithin hg input hid position r
  refine ⟨count, _, _, hc, ?_⟩
  rw [created, hc]
  rfl

/-- Matching a node with a fresh resolver as a run of the machine, with its account. -/
theorem exists_run (hg : IsLayered g.nodes) {id : Nat} (hid : id < g.nodes.size) {out : Outcome}
    {d : Diagnostics} (h : g.resolve input id 0 .empty = (out, d)) :
    let start : Machine := ⟨.node id 0, [], .fresh⟩
    ∃ count, (step g input)^[count] start = give out [] ⟨0, d⟩ ∧
      d.Shows (recordedIn g input count start).reverse ∧
      createdIn g input count start = recordedIn g input count start ++ failureOf out := by
  intro start
  have account : KeepsAccount g input start [] := keepsAccount hg hid 0 Diagnostics.shows_empty
  obtain ⟨count, hc⟩ := Machine.performs_resolveWithin hg input nestingLimit hid 0 [] .fresh rfl
  have hc : (step g input)^[count] start = give out [] ⟨0, d⟩ := by
    rw [hc, Machine.finish]
    change give (g.resolve input id 0 .empty).1 [] ⟨0, (g.resolve input id 0 .empty).2⟩ = _
    rw [h]
  have shows := account.shows count
  have created := account.created count
  rw [hc] at shows created
  rw [List.append_nil] at shows
  exact ⟨count, hc, shows, created⟩

end Graph

namespace ScriptParser

open NodeScript.Graph (History IsLayered KeepsAccount Reachable compile)
open NodeScript.Graph.Machine (createdIn give step)

variable {p : ScriptParser}

theorem resolve_eq_error {text : String} {e : ParseError}
    (h : p.resolve text = .error (.parse e)) :
    ∃ ts, p.tokenize text = .ok ts ∧ p.resolveTokens ts.toArray = .error e := by
  unfold resolve at h
  match hts : p.tokenize text with
  | .error lex => simp [hts] at h
  | .ok ts =>
      simp only [hts] at h
      match hr : p.resolveTokens ts.toArray with
      | .ok t => simp [hr, Except.mapError] at h
      | .error e' =>
          obtain rfl : e' = e := by simpa [hr, Except.mapError] using h
          exact ⟨ts, rfl, hr⟩

/-- Tokens are refused where the root stops before their end, or where the root has failed. -/
theorem resolveTokens_eq_error {ts : Array Token} {e : ParseError}
    (h : p.resolveTokens ts = .error e) :
    let input : Input := ⟨ts, p.builders⟩
    (∃ t next d, p.graph.resolve input p.root 0 .empty = (.ok (t, next), d) ∧ next ≠ ts.size ∧
      e = ⟨next, ts.size, input.previewAt next, d.trace⟩) ∨
    ∃ f d, p.graph.resolve input p.root 0 .empty = (.error f, d) ∧
      e = ⟨(d.record f).furthest, ts.size, input.previewAt (d.record f).furthest,
        (d.record f).trace⟩ := by
  intro input
  unfold resolveTokens resolveTokensWithin at h
  split at h
  · cases h
  · obtain ⟨out, d, hm⟩ : ∃ out d, p.graph.resolve input p.root 0 .empty = (out, d) :=
      ⟨_, _, rfl⟩
    have hw : p.graph.resolveWithin ⟨ts, p.builders⟩ Graph.nestingLimit p.root 0 .empty =
        (out, d) := hm
    simp only [hw] at h
    cases out with
    | ok success =>
        obtain ⟨t, next⟩ := success
        simp only at h
        split at h
        · cases h
        · exact .inl ⟨t, next, d, hm, ‹_›, (Except.error.inj h).symm⟩
    | error f =>
        simp only at h
        exact .inr ⟨f, d, hm, (Except.error.inj h).symm⟩

theorem max?_reverse {ns : List Nat} {n : Nat} (h : ns.reverse.max? = some n) :
    ns.max? = some n := by
  rw [List.max?_eq_some_iff] at h ⊢
  simpa only [List.mem_reverse] using h

/-- Where the root fails, the position of the error is the furthest of all failures. -/
theorem max?_position {ts : Array Token} {e : ParseError} {f : Failure}
    (hg : IsLayered p.graph.nodes) (hroot : p.root < p.graph.nodes.size)
    (he : p.resolveTokens ts = .error e) :
    let input : Input := ⟨ts, p.builders⟩
    let start : Graph.Machine := ⟨.node p.root 0, [], .fresh⟩
    (p.graph.resolve input p.root 0 .empty).1 = .error f →
    ∃ count r, (step p.graph input)^[count] start = give (.error f) [] r ∧
      ((createdIn p.graph input count start).map Failure.position).max? = some e.position := by
  intro input start hf
  rcases resolveTokens_eq_error he with ⟨t, next, d, hm, -, -⟩ | ⟨f', d, hm, rfl⟩
  · rw [hm] at hf
    cases hf
  · obtain rfl : f' = f := by simpa [input, hm] using hf
    obtain ⟨count, hc, shows, created⟩ := Graph.exists_run hg hroot hm
    refine ⟨count, _, hc, max?_reverse ?_⟩
    rw [created, ← List.map_reverse, List.reverse_append]
    exact (shows.record f').max?_eq

/-- No failure escapes the diagnostics of a compiled graph. Whatever a resolver has been used for,
its diagnostics show all failures that were recorded, and every further call keeps an account of the
failures made in it. So where the root of a script fails, the error is at the furthest position at
which anything that was tried has failed. -/
theorem failures_accounted {rules : RuleTable} {tokens : TokenTable} {g : Graph}
    (h : compile rules tokens = .ok g) :
    (∀ input r, Reachable g input r → ∃ log, History g input r log) ∧
    (∀ input r log, History g input r log → r.diagnostics.Shows log ∧
      ∀ id position, id < g.nodes.size →
        KeepsAccount g input ⟨.node id position, [], r⟩ log) ∧
    ∀ (p : ScriptParser) (text : String) (ts : List Token) (e : ParseError) (f : Failure),
      p.graph = g → p.root < g.nodes.size → p.tokenize text = .ok ts →
      p.resolve text = .error (.parse e) →
      let input : Input := ⟨ts.toArray, p.builders⟩
      let start : Graph.Machine := ⟨.node p.root 0, [], .fresh⟩
      (g.resolve input p.root 0 .empty).1 = .error f →
      ∃ count r, (step g input)^[count] start = give (.error f) [] r ∧
        ((createdIn g input count start).map Failure.position).max? = some e.position := by
  have layered : IsLayered g.nodes := Graph.compile_isLayered h
  refine ⟨fun _ _ hr => hr.exists_history, ?_, ?_⟩
  · intro input r log hr
    exact ⟨hr.shows, fun id position hid => Graph.keepsAccount layered hid position hr.shows⟩
  · rintro p text ts e f rfl hroot hts he input start hf
    obtain ⟨ts', hts', he⟩ := resolve_eq_error he
    obtain rfl : ts = ts' := by simpa [hts] using hts'
    exact max?_position layered hroot he hf

/-- Two leaves of different kinds. -/
def pairs : RuleTable :=
  ⟨[("pair", [[.literal "x", .literal "y"]])]⟩

/-- The compiled pairs. -/
def pairsGraph : Graph :=
  ⟨#[.composite "pair" [3], .literal "x", .literal "y", .sequence [1, 2]], [("pair", 0)]⟩

/-- The parser of pairs, without builders. -/
def pairsParser : ScriptParser :=
  ⟨.script, pairsGraph, .empty, 0⟩

/-- The pair fails where it began, and the second leaf, which is another one, has failed further on.
A resolver that has been called and given a failure goes on with its account. -/
theorem failures_accounted_pairs : compile pairs ⟨[]⟩ = .ok pairsGraph ∧
    (∃ r log, History pairsGraph ⟨#[], .empty⟩ r log ∧ log ≠ [] ∧ r.diagnostics.Shows log ∧
      KeepsAccount pairsGraph ⟨#[], .empty⟩ ⟨.node 0 0, [], r⟩ log) ∧
    ∃ (ts : List Token) (e : ParseError) (f : Failure), pairsParser.tokenize "x x" = .ok ts ∧
      pairsParser.resolve "x x" = .error (.parse e) ∧ f.position = 0 ∧ e.position = 1 ∧
      let input : Input := ⟨ts.toArray, .empty⟩
      let start : Graph.Machine := ⟨.node 0 0, [], .fresh⟩
      (pairsGraph.resolve input 0 0 .empty).1 = .error f ∧
      ∃ count r, (step pairsGraph input)^[count] start = give (.error f) [] r ∧
        ((createdIn pairsGraph input count start).map Failure.position).max? = some 1 := by
  have compiles : compile pairs ⟨[]⟩ = .ok pairsGraph := rfl
  obtain ⟨-, accounts, furthest⟩ := failures_accounted compiles
  refine ⟨rfl, ?_, ?_⟩
  · let input : Input := ⟨#[], .empty⟩
    obtain ⟨count, out, r, hc, -⟩ := ((accounts input _ _ .fresh).2 0 0 (by decide)).returned
    let f : Failure := input.failure "more" 9
    have used : History pairsGraph input (r.record f) _ := .record f (.resolve .fresh hc)
    obtain ⟨shows, account⟩ := accounts input _ _ used
    exact ⟨_, _, used, List.cons_ne_nil _ _, shows, account 0 0 (by decide)⟩
  · let ts : List Token := [⟨"WORD", "x", some "ID", ⟨0, 1⟩⟩, ⟨"WORD", "x", some "ID", ⟨2, 3⟩⟩]
    let input : Input := ⟨ts.toArray, .empty⟩
    have tokenized : pairsParser.tokenize "x x" = .ok ts := by decide +kernel
    have failed : (pairsGraph.resolve input 0 0 .empty).1 = .error (input.failure "pair" 0) := rfl
    let trace : List Failure := [input.failure "pair" 0, input.failure (Text.quoted "y") 1]
    have refused : pairsParser.resolve "x x" = .error (.parse ⟨1, 2, "x", trace⟩) := by
      simp only [resolve, tokenized]
      rfl
    exact ⟨ts, _, _, tokenized, refused, rfl, rfl, failed,
      furthest pairsParser "x x" ts _ _ rfl (by decide) tokenized refused failed⟩

end ScriptParser

end NodeScript
