import NodeScript.Proofs.Grammar.Failures

/-!
# Parse errors are about the tokens

The machine never goes beyond the tokens, so that all that fails does so at a token or at their end,
and says what is there. What a parse error says of its own position and of those in its trace is
therefore true of the tokens of the text.
-/

namespace NodeScript

/-- A preview looks at one token more than it shows. -/
theorem Token.preview_take (ts : List Token) {limit n : Nat} (h : limit < n) :
    preview (ts.take n) limit = preview ts limit := by
  have shown : (ts.take n).take limit = ts.take limit := by
    rw [List.take_take, Nat.min_eq_left (Nat.le_of_lt h)]
  have more : ((ts.take n).drop limit).isEmpty = (ts.drop limit).isEmpty := by
    rw [List.drop_take]
    cases ts.drop limit with
    | nil => simp
    | cons t rest =>
        obtain ⟨k, hk⟩ := Nat.exists_eq_add_one_of_ne_zero (Nat.sub_ne_zero_of_lt h)
        rw [hk, List.take_succ_cons, List.isEmpty_cons, List.isEmpty_cons]
  simp only [preview, shown, more]

namespace Input

variable {input : Input}

theorem previewAt_eq (input : Input) (position : Nat) :
    input.previewAt position =
      Token.preview (input.tokens.toList.drop position) previewLimit := by
  have few : position + previewLimit + 1 - position = previewLimit + 1 := by omega
  rw [previewAt, Array.toList_extract, List.extract_eq_take_drop, few,
    Token.preview_take _ (Nat.lt_succ_self _)]

end Input

namespace Graph

/-- The failure is at a token or at their end, and says what is there. -/
structure IsAbout (input : Input) (f : Failure) : Prop where
  position_le : f.position ≤ input.tokens.size
  eq_failure : f = input.failure f.expected f.position

def Task.positions : Task → List Nat
  | .node _ position => [position]
  | .items _ _ position => [position]
  | .round _ _ position => [position]
  | .alternatives _ _ position => [position]
  | .outcome (.ok (_, next)) => [next]
  | .outcome (.error _) => []

def Frame.positions : Frame → List Nat
  | .item _ _ => []
  | .left _ position => [position]
  | .round _ _ position => [position]
  | .alternative _ _ position => [position]
  | .rule => []

variable {g : Graph} {input : Input} {limit : Nat}

namespace Machine

/-- The positions where the machine is and where it may go on are no further than the limit. -/
structure IsWithin (limit : Nat) (m : Machine) : Prop where
  task : ∀ n ∈ m.task.positions, n ≤ limit
  stack : ∀ frame ∈ m.stack, ∀ n ∈ frame.positions, n ≤ limit

theorem isWithin_fail {f : Failure} {stack : List Frame} {r : Resolver}
    (h : ∀ frame ∈ stack, ∀ n ∈ frame.positions, n ≤ limit) :
    (give (.error f) stack r).IsWithin limit :=
  ⟨List.forall_mem_nil _, h⟩

theorem isWithin_resume {frame : Frame} {out : Outcome} {stack : List Frame} {r : Resolver}
    (h : IsWithin limit ⟨.outcome out, frame :: stack, r⟩) :
    (resume input frame out stack r).IsWithin limit := by
  obtain ⟨ht, hall⟩ := h
  obtain ⟨hf, hs⟩ := List.forall_mem_cons.1 hall
  cases frame with
  | item done rest =>
      cases out with
      | ok success => exact ⟨ht, hs⟩
      | error f => exact isWithin_fail hs
  | left right position =>
      cases out with
      | ok success => exact ⟨ht, hs⟩
      | error f => exact ⟨hf, hs⟩
  | round done item position =>
      cases out with
      | ok success =>
          simp only [resume]
          split <;> exact ⟨ht, hs⟩
      | error f =>
          cases done with
          | nil => exact isWithin_fail hs
          | cons t done => exact ⟨hf, hs⟩
  | alternative name rest position =>
      cases out with
      | error f => exact ⟨hf, hs⟩
      | ok success =>
          simp only [resume]
          split
          · exact ⟨ht, hs⟩
          · exact ⟨hf, hs⟩
  | rule => exact ⟨ht, hs⟩

/-- A token is taken only where there is one, so that the position after it is no further than the
end. -/
theorem isWithin_one (expected : String) (test : Token → Bool) {position : Nat}
    {stack : List Frame} {r : Resolver}
    (h : ∀ frame ∈ stack, ∀ n ∈ frame.positions, n ≤ input.tokens.size) :
    (give (Match.one input expected test position r.diagnostics).1 stack r).IsWithin
      input.tokens.size := by
  unfold Match.one
  match ht : input.tokens[position]? with
  | none => exact isWithin_fail h
  | some t =>
      obtain ⟨hlt, -⟩ := Array.getElem?_eq_some_iff.1 ht
      simp only
      split
      · exact ⟨List.forall_mem_singleton.2 hlt, h⟩
      · exact isWithin_fail h

theorem IsWithin.step {m : Machine} (h : m.IsWithin input.tokens.size) :
    (step g input m).IsWithin input.tokens.size := by
  obtain ⟨task, stack, r⟩ := m
  obtain ⟨ht, hs⟩ := h
  cases task with
  | node id position =>
      simp only [Machine.step]
      cases g.nodes[id]? with
      | none => exact ⟨ht, hs⟩
      | some node =>
          cases node with
          | composite name ids =>
              simp only
              split
              · exact isWithin_fail hs
              · exact ⟨ht, List.forall_mem_cons.2 ⟨List.forall_mem_nil _, hs⟩⟩
          | sequence items => exact ⟨ht, hs⟩
          | alternation left right => exact ⟨ht, List.forall_mem_cons.2 ⟨ht, hs⟩⟩
          | repetition item => exact ⟨ht, hs⟩
          | literal text => exact isWithin_one _ _ hs
          | terminal name row => exact isWithin_one _ _ hs
  | items done rest position =>
      cases rest with
      | nil => exact ⟨ht, hs⟩
      | cons id rest => exact ⟨ht, List.forall_mem_cons.2 ⟨List.forall_mem_nil _, hs⟩⟩
  | round done item position => exact ⟨ht, List.forall_mem_cons.2 ⟨ht, hs⟩⟩
  | alternatives name rest position =>
      cases rest with
      | nil => exact isWithin_fail hs
      | cons id rest => exact ⟨ht, List.forall_mem_cons.2 ⟨ht, hs⟩⟩
  | outcome out =>
      cases stack with
      | nil => exact ⟨ht, hs⟩
      | cons frame stack => exact isWithin_resume ⟨ht, hs⟩

theorem IsWithin.iterate {m : Machine} (h : m.IsWithin input.tokens.size) (count : Nat) :
    ((Machine.step g input)^[count] m).IsWithin input.tokens.size := by
  refine Function.Iterate.rec (IsWithin input.tokens.size) h ?_ count
  intro m hm
  exact hm.step

theorem isAbout_failure (expected : String) {position : Nat}
    (h : position ≤ input.tokens.size) :
    ∀ f ∈ [input.failure expected position], IsAbout input f :=
  List.forall_mem_singleton.2 ⟨h, rfl⟩

theorem isAbout_one (expected : String) (test : Token → Bool) {position : Nat}
    (h : position ≤ input.tokens.size) (d : Diagnostics) :
    ∀ f ∈ failureOf (Match.one input expected test position d).1, IsAbout input f := by
  unfold Match.one
  split
  · split
    · exact List.forall_mem_nil _
    · exact isAbout_failure expected h
  · exact isAbout_failure expected h

theorem isAbout_refusal (name : String) (t : Tree) {position : Nat}
    (h : position ≤ input.tokens.size) : ∀ f ∈ refusal input name position t, IsAbout input f := by
  unfold refusal
  split
  · exact List.forall_mem_nil _
  · exact isAbout_failure _ h

/-- All that a step makes is about the tokens. -/
theorem IsWithin.isAbout {m : Machine} (h : m.IsWithin input.tokens.size) :
    ∀ f ∈ m.created g input, IsAbout input f := by
  obtain ⟨task, stack, r⟩ := m
  obtain ⟨ht, hs⟩ := h
  cases task with
  | node id position =>
      have hp : position ≤ input.tokens.size := ht position (.head _)
      simp only [created]
      cases g.nodes[id]? with
      | none => exact List.forall_mem_nil _
      | some node =>
          cases node with
          | composite name ids =>
              simp only
              split
              · exact isAbout_failure _ hp
              · exact List.forall_mem_nil _
          | sequence items => exact List.forall_mem_nil _
          | alternation left right => exact List.forall_mem_nil _
          | repetition item => exact List.forall_mem_nil _
          | literal text => exact isAbout_one _ _ hp _
          | terminal name row => exact isAbout_one _ _ hp _
  | items done rest position => exact List.forall_mem_nil _
  | round done item position => exact List.forall_mem_nil _
  | alternatives name rest position =>
      cases rest with
      | nil => exact isAbout_failure name (ht position (.head _))
      | cons id rest => exact List.forall_mem_nil _
  | outcome out =>
      cases out with
      | error f => exact List.forall_mem_nil _
      | ok success =>
          obtain ⟨t, next⟩ := success
          cases stack with
          | nil => exact List.forall_mem_nil _
          | cons frame stack =>
              obtain ⟨hf, -⟩ := List.forall_mem_cons.1 hs
              cases frame with
              | alternative name rest position =>
                  exact isAbout_refusal name t (hf position (.head _))
              | item done rest => exact List.forall_mem_nil _
              | left right position => exact List.forall_mem_nil _
              | round done item position => exact List.forall_mem_nil _
              | rule => exact List.forall_mem_nil _

theorem IsWithin.isAbout_createdIn {m : Machine} (h : m.IsWithin input.tokens.size) (count : Nat) :
    ∀ f ∈ createdIn g input count m, IsAbout input f := by
  induction count generalizing m with
  | zero => exact List.forall_mem_nil _
  | succ count ih => exact List.forall_mem_append.2 ⟨h.isAbout, ih h.step⟩

end Machine

/-- What the diagnostics show of a run within the tokens is about them. -/
theorem isAbout_of_exists_run {g : Graph} (hg : IsLayered g.nodes) {id : Nat}
    (hid : id < g.nodes.size) {out : Outcome} {d : Diagnostics}
    (h : g.resolve input id 0 .empty = (out, d)) :
    (∀ n ∈ (Task.outcome out).positions, n ≤ input.tokens.size) ∧
      (∀ f ∈ failureOf out, IsAbout input f) ∧
      ∃ log, d.Shows log ∧ ∀ f ∈ log, IsAbout input f := by
  obtain ⟨count, hc, shows, created⟩ := exists_run hg hid h
  have start : Machine.IsWithin input.tokens.size ⟨.node id 0, [], .fresh⟩ :=
    ⟨List.forall_mem_singleton.2 (Nat.zero_le _), List.forall_mem_nil _⟩
  have stop := start.iterate (g := g) count
  have about := start.isAbout_createdIn (g := g) count
  rw [hc] at stop
  rw [created] at about
  obtain ⟨recorded, returned⟩ := List.forall_mem_append.1 about
  exact ⟨stop.task, returned, _, shows, fun f hf => recorded f (List.mem_reverse.1 hf)⟩

end Graph

/-! ## Errors -/

/-- The failure is at a token or at their end, and shows the tokens from there on. -/
structure Failure.IsCoherent (ts : List Token) (f : Failure) : Prop where
  position_le : f.position ≤ ts.length
  found_eq : f.found = ts[f.position]?.map Token.text
  found_eq_none : f.found = none ↔ f.position = ts.length
  remaining_eq : f.remaining = Token.preview (ts.drop f.position) Input.previewLimit

/-- The error is at a token or at their end, and shows the tokens from there on and a few failures
that are as coherent. -/
structure ParseError.IsCoherent (ts : List Token) (e : ParseError) : Prop where
  total_eq : e.total = ts.length
  position_le : e.position ≤ e.total
  position_add_remaining : e.position + e.remaining = e.total
  unconsumed_eq : e.unconsumed = Token.preview (ts.drop e.position) Input.previewLimit
  length_trace_le : e.trace.length ≤ Diagnostics.traceLimit
  trace : ∀ f ∈ e.trace, f.IsCoherent ts

variable {ts : List Token} {builders : BuilderTable}

theorem Graph.IsAbout.isCoherent {f : Failure} (h : IsAbout ⟨ts.toArray, builders⟩ f) :
    f.IsCoherent ts := by
  have found : f.found = ts[f.position]?.map Token.text := by
    rw [h.eq_failure]
    simp [Input.failure]
  have le : f.position ≤ ts.length := h.position_le
  refine ⟨le, found, ?_, ?_⟩
  · rw [found, Option.map_eq_none_iff, List.getElem?_eq_none_iff]
    exact ⟨fun past => Nat.le_antisymm le past, fun last => Nat.le_of_eq last.symm⟩
  · rw [h.eq_failure]
    exact Input.previewAt_eq _ _

/-- An error with the trace of diagnostics that are about the tokens. -/
theorem ParseError.isCoherent_of_shows {d : Diagnostics} {log : List Failure} (h : d.Shows log)
    (about : ∀ f ∈ log, Graph.IsAbout ⟨ts.toArray, builders⟩ f) {position : Nat}
    (hp : position ≤ ts.length) :
    ParseError.IsCoherent ts
      ⟨position, ts.length, Input.previewAt ⟨ts.toArray, builders⟩ position, d.trace⟩ where
  total_eq := rfl
  position_le := hp
  position_add_remaining := Nat.add_sub_cancel' hp
  unconsumed_eq := Input.previewAt_eq _ _
  length_trace_le := h.trace ▸ List.length_take_le _ _
  trace f hf := (about f (List.mem_of_mem_take (h.trace ▸ hf))).isCoherent

namespace ScriptParser

open NodeScript.Graph (compile)

variable {p : ScriptParser}

theorem of_ofTables {tokens : TokenTable} {rules : RuleTable} {root : String}
    (h : ofTables tokens rules root builders = .ok p) :
    ∃ g id, compile rules tokens = .ok g ∧ g.rule? root = some id ∧
      p = ⟨tokens, g, builders, id⟩ := by
  unfold ofTables at h
  split at h
  · cases h
  · split at h
    · exact ⟨_, _, ‹_›, ‹_›, (Except.ok.inj h).symm⟩
    · cases h

theorem isCoherent_of_resolveTokens {e : ParseError}
    (hg : Graph.IsLayered p.graph.nodes) (hroot : p.root < p.graph.nodes.size)
    (he : p.resolveTokens ts.toArray = .error e) :
    e.IsCoherent ts ∧ ∀ t next, (p.graph.resolve ⟨ts.toArray, p.builders⟩ p.root 0 .empty).1 =
      .ok (t, next) → e.position = next ∧ next < e.total := by
  rcases resolveTokens_eq_error he with ⟨t, next, d, hm, hne, rfl⟩ | ⟨f, d, hm, rfl⟩
  · obtain ⟨positions, -, log, shows, about⟩ := Graph.isAbout_of_exists_run hg hroot hm
    have le : next ≤ ts.length := positions next (.head _)
    refine ⟨ParseError.isCoherent_of_shows shows about le, fun t' next' ht => ?_⟩
    rw [hm] at ht
    cases ht
    exact ⟨rfl, Nat.lt_of_le_of_ne le hne⟩
  · obtain ⟨-, returned, log, shows, about⟩ := Graph.isAbout_of_exists_run hg hroot hm
    have all := List.forall_mem_cons.2 ⟨returned f (.head _), about⟩
    have le : (d.record f).furthest ≤ ts.length := by
      obtain ⟨f', hf', hp⟩ := List.mem_map.1 (List.max?_mem (shows.record f).max?_eq)
      exact hp ▸ (all f' hf').position_le
    refine ⟨ParseError.isCoherent_of_shows (shows.record f) all le, fun t' next' ht => ?_⟩
    rw [hm] at ht
    cases ht

/-- A parser that refuses a text tells where its tokens were given up, which is no further than
their end, and before it where the root had matched some of them, and what is there; and so does
every failure that it shows. -/
theorem errors_coherent {tokens : TokenTable} {rules : RuleTable} {root text : String}
    {e : ParseError} (h : ofTables tokens rules root builders = .ok p)
    (he : p.resolve text = .error (.parse e)) :
    ∃ all, tokens.tokenize text = .ok all ∧ e.IsCoherent (Token.significant all) ∧
      ∀ t next,
        (p.graph.resolve ⟨(Token.significant all).toArray, builders⟩ p.root 0 .empty).1 =
          .ok (t, next) → e.position = next ∧ next < e.total := by
  obtain ⟨g, id, hg, hid, rfl⟩ := of_ofTables h
  obtain ⟨ts, hts, refused⟩ := resolve_eq_error he
  have hroot : id < g.nodes.size := Graph.rule?_lt_size hg hid
  simp only [tokenize] at hts
  match hall : tokens.tokenize text with
  | .error lex => simp [hall, Except.map] at hts
  | .ok all =>
      obtain rfl : Token.significant all = ts := by simpa [hall, Except.map] using hts
      exact ⟨all, rfl, isCoherent_of_resolveTokens (Graph.compile_isLayered hg) hroot refused⟩

/-- A pair with more after it is given up at its end, and a leaf alone where the other is missing. -/
theorem errors_coherent_pairs :
    ofTables .script pairs "pair" .empty = .ok pairsParser ∧
    ∃ e e' all all', pairsParser.resolve "x y y" = .error (.parse e) ∧
      e.position = 2 ∧ e.trace = [] ∧
      pairsParser.resolve "x" = .error (.parse e') ∧
      e'.position = 1 ∧ e'.trace.map Failure.position = [0, 1] ∧
      TokenTable.script.tokenize "x y y" = .ok all ∧ e.IsCoherent (Token.significant all) ∧
      TokenTable.script.tokenize "x" = .ok all' ∧ e'.IsCoherent (Token.significant all') := by
  have compiles : compile pairs .script = .ok pairsGraph := rfl
  have built : ofTables .script pairs "pair" .empty = .ok pairsParser := by
    simp only [ofTables, compiles]
    rfl
  let word (text : String) (first last : Nat) : Token := ⟨"WORD", text, some "ID", ⟨first, last⟩⟩
  let ts : List Token := [word "x" 0 1, word "y" 2 3, word "y" 4 5]
  let ts' : List Token := [word "x" 0 1]
  have tokenized : pairsParser.tokenize "x y y" = .ok ts := by decide +kernel
  have tokenized' : pairsParser.tokenize "x" = .ok ts' := by decide +kernel
  let input : Input := ⟨ts'.toArray, .empty⟩
  let trace : List Failure := [input.failure "pair" 0, input.failure (Text.quoted "y") 1]
  have refused : pairsParser.resolve "x y y" = .error (.parse ⟨2, 3, "y", []⟩) := by
    simp only [resolve, tokenized]
    rfl
  have refused' : pairsParser.resolve "x" = .error (.parse ⟨1, 1, Token.endOfInput, trace⟩) := by
    simp only [resolve, tokenized']
    rfl
  obtain ⟨all, hall, coherent, -⟩ := errors_coherent built refused
  obtain ⟨all', hall', coherent', -⟩ := errors_coherent built refused'
  exact ⟨built, _, _, all, all', refused, rfl, rfl, refused', rfl, rfl, hall, coherent, hall',
    coherent'⟩

end ScriptParser

end NodeScript
