import NodeScript.Proofs.Script.Values

/-!
# Reading statements

The rules for knobs, stack commands, nodes and whole scripts read exactly the well-formed pieces of
their kind. The builders never refuse a node, and a knob only for a value that cannot be read.
-/

namespace NodeScript.Script

open Descent (Reads)

variable (limit b : Nat)

/-! ## Knobs -/

theorem valueOf_tree (v : ValueText) : Builder.valueOf v.tree = v.value.mapError .cast := by
  cases v <;> rfl

theorem build_knob (t : Tree) :
    BuilderTable.standard.build "knob" t = Builder.buildAttribute t :=
  rfl

theorem buildAttribute_knob (k : KnobText) :
    Builder.buildAttribute (.list [.token k.name, k.value.tree]) =
      (k.knob.map Tree.attribute).mapError .cast := by
  simp only [Builder.buildAttribute, Tree.items, valueOf_tree, KnobText.knob]
  cases k.value.value <;> rfl

theorem reads_knob : Reads (read limit (b + 6) "knob") limit KnobText.tokens
    (fun k _ => k.WellFormed) (fun k t => ∃ a, k.knob = .ok a ∧ t = .attribute a) where
  sound := fun hl h => by
    rw [read_knob, Descent.rule_cons_eq_some] at h
    simp only [Descent.sequence_eq_some, Descent.all_cons_eq_some, Descent.all_nil_eq_some,
      Descent.one_eq_some, Descent.rule_nil, build_knob] at h
    obtain ⟨_, ⟨_, ⟨_, _, _, ⟨n, rfl, hn, rfl⟩, ⟨t, _, _, ht, ⟨rfl, rfl⟩, rfl⟩, rfl⟩, rfl⟩, hb⟩ |
      ⟨_, h⟩ := h
    · simp only [List.length_cons] at hl
      obtain ⟨v, rfl, hv, rfl⟩ := (reads_knobValue limit b).sound (by omega) ht
      have hb' := (buildAttribute_knob ⟨n, v⟩).symm.trans hb
      match hk : KnobText.knob ⟨n, v⟩ with
      | .error e => simp [hk, Except.map, Except.mapError] at hb'
      | .ok a =>
          obtain rfl : Tree.attribute a = _ := by simpa [hk, Except.map, Except.mapError] using hb'
          exact ⟨⟨n, v⟩, rfl, ⟨hn, hv, by simp [hk, Except.isOk, Except.toBool]⟩, a, hk, rfl⟩
    · cases h
  complete := fun k rest hl ⟨hn, hv, hk⟩ => by
    simp only [KnobText.tokens, List.cons_append, List.length_cons] at hl ⊢
    obtain ⟨t, ht, rfl⟩ := (reads_knobValue limit b).complete k.value rest (by omega) hv
    match hk' : k.knob with
    | .error e => simp [hk', Except.isOk, Except.toBool] at hk
    | .ok a =>
        refine ⟨.attribute a, ?_, a, rfl, rfl⟩
        rw [read_knob, Descent.rule_cons_eq_some]
        refine .inl ⟨.list [.token k.name, k.value.tree], ?_, ?_⟩
        · simp [Descent.sequence, Descent.all, Descent.one, hn, ht, Tree.flatten]
        · rw [build_knob, buildAttribute_knob, hk']
          rfl

theorem knob_tokens_ne_nil (k : KnobText) : k.tokens ≠ [] :=
  List.cons_ne_nil _ _

theorem read_knob_mark {t : Token} (h : t.text ∈ marks) (rest : List Token) :
    read limit (b + 6) "knob" (t :: rest) = none := by
  rw [read_knob]
  simp [Descent.rule, Descent.sequence, Descent.all, Descent.one, isWord_mark h]

theorem attributesOfList_map (as : List Attribute) :
    Builder.attributesOfList (as.map .attribute) = .ok as := by
  induction as with
  | nil => rfl
  | cons a as ih =>
      simp [Builder.attributesOfList, Builder.attributesOf, ih, bind, Except.bind]

theorem tokens_attributes (as : List Attribute) :
    (as.map Tree.attribute).flatMap Tree.tokens = [] := by
  simp [List.flatMap_map, Tree.tokens]

/-- Trees of knobs hold the knobs. -/
theorem attributesOfList_knobs {ks : List KnobText} {trees : List Tree}
    (h : List.Forall₂ (fun k t => ∃ a, k.knob = .ok a ∧ t = .attribute a) ks trees) :
    ∃ as, List.Forall₂ (fun k a => k.knob = .ok a) ks as ∧
      Builder.attributesOfList trees = .ok as ∧ trees.flatMap Tree.tokens = [] := by
  obtain ⟨as, has, rfl⟩ : ∃ as, List.Forall₂ (fun k a => k.knob = .ok a) ks as ∧
      trees = as.map .attribute := by
    induction h with
    | nil => exact ⟨[], .nil, rfl⟩
    | cons ha _ ih =>
        obtain ⟨a, ha, rfl⟩ := ha
        obtain ⟨as, has, rfl⟩ := ih
        exact ⟨a :: as, .cons ha has, rfl⟩
  exact ⟨as, has, attributesOfList_map as, tokens_attributes as⟩

theorem attributesOf_flatten (t : Tree) :
    Builder.attributesOf t.flatten = Builder.attributesOf t := by
  fun_induction Tree.flatten t with
  | case1 item ih =>
      rw [ih, Builder.attributesOf.eq_2, Builder.attributesOfList, Builder.attributesOfList]
      cases Builder.attributesOf item <;> simp [bind, Except.bind]
  | case2 t _ => rfl

theorem reads_knobs : Reads (read limit (b + 7) "knobs") limit
    (fun ks => ks.flatMap KnobText.tokens)
    (fun ks rest => ks ≠ [] ∧ (∀ k ∈ ks, k.WellFormed) ∧ read limit (b + 6) "knob" rest = none)
    (fun ks t => ∃ as, List.Forall₂ (fun k a => k.knob = .ok a) ks as ∧
      Builder.attributesOf t = .ok as ∧ t.tokens = []) where
  sound := fun {ts t rest} hl h => by
    rw [read_knobs, sequence_singleton, Option.map_eq_some_iff] at h
    obtain ⟨⟨t', rest'⟩, ht, he⟩ := h
    obtain ⟨rfl, rfl⟩ := Prod.mk.inj he
    obtain ⟨ks, rfl, ⟨hne, hks, hn⟩, trees, hts, rfl⟩ :=
      ((reads_knob limit b).oneOrMore fun _ => knob_tokens_ne_nil _).sound hl ht
    obtain ⟨as, has, hb, htt⟩ := attributesOfList_knobs hts
    exact ⟨ks, rfl, ⟨hne, Descent.inTurn_iff_forall.1 hks, hn⟩, as, has, by
      simp [attributesOf_flatten, Builder.attributesOf, hb], by simp [htt]⟩
  complete := fun ks rest hl ⟨hne, hks, hn⟩ => by
    obtain ⟨t, ht, trees, hts, rfl⟩ :=
      ((reads_knob limit b).oneOrMore fun _ => knob_tokens_ne_nil _).complete ks rest hl
        ⟨hne, Descent.inTurn_iff_forall.2 hks, hn⟩
    obtain ⟨as, has, hb, htt⟩ := attributesOfList_knobs hts
    refine ⟨(Tree.list trees).flatten.flatten, ?_, as, has, ?_, ?_⟩
    · rw [read_knobs, sequence_singleton, ht, Option.map_some]
    · simp [attributesOf_flatten, Builder.attributesOf, hb]
    · simp [htt]

/-! ## Stack commands -/

theorem sequence_ones_eq_some {form : List (Token → Bool)} {ts rest : List Token} {t : Tree} :
    Descent.sequence (form.map .one) ts = some (t, rest) ↔
      ∃ taken, ts = taken ++ rest ∧ List.Forall₂ (fun test t => test t = true) form taken ∧
        t = (Tree.list (taken.map .token)).flatten := by
  have all {ts rest : List Token} {trees : List Tree} :
      Descent.all (form.map .one) ts = some (trees, rest) ↔
        ∃ taken, ts = taken ++ rest ∧ List.Forall₂ (fun test t => test t = true) form taken ∧
          trees = taken.map .token := by
    induction form generalizing ts trees with
    | nil =>
        rw [List.map_nil, Descent.all_nil_eq_some]
        constructor
        · rintro ⟨rfl, rfl⟩
          exact ⟨[], rfl, .nil, rfl⟩
        · rintro ⟨_, rfl, ⟨⟩, rfl⟩
          exact ⟨rfl, rfl⟩
    | cons test form ih =>
        simp only [List.map_cons, Descent.all_cons_eq_some, Descent.one_eq_some, ih]
        constructor
        · rintro ⟨_, _, _, ⟨a, rfl, ha, rfl⟩, ⟨taken, rfl, hf, rfl⟩, rfl⟩
          exact ⟨a :: taken, rfl, .cons ha hf, rfl⟩
        · rintro ⟨_, rfl, _ | ⟨ha, hf⟩, rfl⟩
          exact ⟨_, _, _, ⟨_, rfl, ha, rfl⟩, ⟨_, rfl, hf, rfl⟩, rfl⟩
  rw [Descent.sequence_eq_some]
  constructor
  · rintro ⟨trees, ht, rfl⟩
    obtain ⟨taken, rfl, hf, rfl⟩ := all.1 ht
    exact ⟨taken, rfl, hf, rfl⟩
  · rintro ⟨taken, rfl, hf, rfl⟩
    exact ⟨_, all.2 ⟨taken, rfl, hf, rfl⟩, rfl⟩

/-- An earlier form is at least as long as a later one, or begins with another token. -/
theorem commandForms_pairwise : commandForms.Pairwise fun f g =>
    g.length ≤ f.length ∨ ∃ p q, f.head? = some p ∧ g.head? = some q ∧ ∀ t, p t → ¬q t := by
  have clash (t : Token) (h : isText "push" t) : isText "version" t = false := by
    simp only [isText, beq_iff_eq] at h
    simp [isText, h]
  simpa [commandForms] using clash

/-- Of the forms that tokens begin with, the first is the longest. -/
theorem prefix_of_first {before after : List (List (Token → Bool))} {f g : List (Token → Bool)}
    {taken taken' ts : List Token} (hforms : commandForms = before ++ f :: after)
    (hf : List.Forall₂ (fun test t => test t = true) f taken) (ht : taken <+: ts)
    (hg : List.Forall₂ (fun test t => test t = true) g taken') (ht' : taken' <+: ts)
    (hmem : g ∈ f :: after) : taken' <+: taken := by
  have hle : g.length ≤ f.length := by
    rcases List.mem_cons.1 hmem with rfl | hmem
    · exact Nat.le_refl _
    · have hp := commandForms_pairwise
      rw [hforms, List.pairwise_append] at hp
      rcases (List.pairwise_cons.1 hp.2.1).1 g hmem with hle | ⟨p, q, hp, hq, hpq⟩
      · exact hle
      · obtain _ | ⟨hpt, _⟩ := hf
        · cases hp
        · obtain _ | ⟨hqt, _⟩ := hg
          · cases hq
          · obtain ⟨_, rfl⟩ := ht
            obtain ⟨_, hts⟩ := ht'
            obtain ⟨rfl, _⟩ := List.cons.inj hts
            obtain rfl := Option.some.inj hp
            obtain rfl := Option.some.inj hq
            exact absurd hqt (hpq _ hpt)
  exact List.prefix_of_prefix_length_le ht' ht (by rwa [← hf.length_eq, ← hg.length_eq])

theorem two_le_length_of_isCommand {ts : List Token} (h : IsCommand ts) : 2 ≤ ts.length := by
  obtain ⟨form, hm, hf⟩ := h
  rw [← hf.length_eq]
  have h : ∀ form ∈ commandForms, 2 ≤ form.length := by simp [commandForms]
  exact h form hm

theorem flatten_command {ts : List Token} (h : IsCommand ts) :
    (Tree.list (ts.map .token)).flatten = .list (ts.map .token) := by
  match ts, two_le_length_of_isCommand h with
  | _ :: _ :: _, _ => rfl

theorem reads_command : Reads (read limit (b + 1) "tcl_command") limit (fun ts => ts)
    IsWholeCommand (fun ts t => t = .list (ts.map .token)) where
  sound := fun _ h => by
    rw [read_command, List.findSome?_eq_some_iff] at h
    obtain ⟨before, form, after, hforms, hs, hb⟩ := h
    obtain ⟨taken, rfl, hf, rfl⟩ := sequence_ones_eq_some.1 hs
    have hc : IsCommand taken := ⟨form, by simp [hforms], hf⟩
    refine ⟨taken, rfl, ⟨hc, fun ts' ⟨g, hg, hg'⟩ hp => ?_⟩, flatten_command hc⟩
    rw [hforms, List.mem_append] at hg
    -- no form before the one that has read fits, and none after it that fits is longer
    rcases hg with hg | hg
    · obtain ⟨_, hts⟩ := hp
      have := hb g hg
      rw [sequence_ones_eq_some.2 ⟨ts', hts.symm, hg', rfl⟩] at this
      cases this
    · exact prefix_of_first hforms hf (List.prefix_append _ _) hg' hp hg
  complete := fun ts rest _ ⟨hc, hl⟩ => by
    refine ⟨_, ?_, rfl⟩
    obtain ⟨form, hform, hf⟩ := hc
    rw [read_command]
    match hr : commandForms.findSome? fun form => Descent.sequence (form.map .one) (ts ++ rest) with
    | none =>
        have := List.findSome?_eq_none_iff.1 hr form hform
        rw [sequence_ones_eq_some.2 ⟨ts, rfl, hf, rfl⟩] at this
        cases this
    | some (t, rest') =>
        obtain ⟨before, first, after, hforms, hs, hb⟩ := List.findSome?_eq_some_iff.1 hr
        obtain ⟨taken, ht, hfirst, rfl⟩ := sequence_ones_eq_some.1 hs
        have hmem : form ∈ first :: after := by
          refine (List.mem_append.1 (hforms ▸ hform)).resolve_left fun h => ?_
          have := hb form h
          rw [sequence_ones_eq_some.2 ⟨ts, rfl, hf, rfl⟩] at this
          cases this
        have htaken : taken <+: ts ++ rest := ⟨rest', ht.symm⟩
        have hle := hl taken ⟨first, by simp [hforms], hfirst⟩ htaken
        have hge := prefix_of_first hforms hfirst htaken hf (List.prefix_append _ _) hmem
        obtain rfl : taken = ts := hle.eq_of_length_le hge.length_le
        obtain rfl : rest = rest' := List.append_cancel_left ht
        rw [hr, flatten_command ⟨form, hform, hf⟩]

/-! ## Nodes -/

theorem build_node (t : Tree) : BuilderTable.standard.build "node" t = Builder.buildNode t :=
  rfl

/-- The builder makes a node of a block. -/
theorem buildNode_eq_ok {c o cl : Token} (ho : o.text = "\x7b") {knobs after : List Tree}
    {as : List Attribute}
    (hk : Builder.knobsUntilClose (knobs ++ .token cl :: after) = .ok (as, after)) :
    Builder.buildNode (.list (.token c :: .token o :: (knobs ++ .token cl :: after))) =
      .ok (.node ⟨c.text, as, Binding.ofWords? ((Tree.tokensList after).map Token.text)⟩) := by
  simp [Builder.buildNode, Tree.items, ho, hk, bind, Except.bind]

theorem knobsUntilClose_nil {cl : Token} (h : cl.text = "\x7d") (after : List Tree) :
    Builder.knobsUntilClose (.token cl :: after) = .ok ([], after) := by
  simp [Builder.knobsUntilClose, h]

theorem knobsUntilClose_knobs {knobs : Tree} {as : List Attribute} {cl : Token}
    (hk : Builder.attributesOf knobs = .ok as) (ht : knobs.tokens = []) (h : cl.text = "\x7d")
    (after : List Tree) :
    Builder.knobsUntilClose (knobs :: .token cl :: after) = .ok (as, after) := by
  match knobs, hk, ht with
  | .token t, _, ht => simp at ht
  | .list items, hk, _ => simp [Builder.knobsUntilClose, hk, h, bind, Except.bind]
  | .attribute a, hk, _ => simp [Builder.knobsUntilClose, hk, h, bind, Except.bind]

/-- A way to write a node, with what it has between the braces and after them. -/
def nodeForm (knobs command : List Descent) : Descent :=
  .sequence (.one isWord :: .one (isText "\x7b") :: (knobs ++ .one (isText "\x7d") :: command))

theorem read_node_eq : read limit (b + 8) "node" = .rule .standard "node" [
    nodeForm [read limit (b + 7) "knobs"] [read limit (b + 7) "tcl_command"],
    nodeForm [read limit (b + 7) "knobs"] [], nodeForm [] [read limit (b + 7) "tcl_command"],
    nodeForm [] []] :=
  read_node limit b

theorem all_append_eq_some {fs gs : List Descent} {ts rest : List Token} {trees : List Tree} :
    Descent.all (fs ++ gs) ts = some (trees, rest) ↔
      ∃ trees' mid trees'', Descent.all fs ts = some (trees', mid) ∧
        Descent.all gs mid = some (trees'', rest) ∧ trees = trees' ++ trees'' := by
  induction fs generalizing ts trees with
  | nil => simp [Descent.all]
  | cons f fs ih =>
      simp only [List.cons_append, Descent.all_cons_eq_some, ih]
      constructor
      · rintro ⟨t, mid, _, hf, ⟨trees', mid', trees'', hfs, hgs, rfl⟩, rfl⟩
        exact ⟨_, mid', trees'', ⟨t, mid, trees', hf, hfs, rfl⟩, hgs, rfl⟩
      · rintro ⟨_, mid', trees'', ⟨t, mid, trees', hf, hfs, rfl⟩, hgs, rfl⟩
        exact ⟨t, mid, _, hf, ⟨trees', mid', trees'', hfs, hgs, rfl⟩, rfl⟩

theorem nodeForm_eq_some {knobs command : List Descent} {ts rest : List Token} {t : Tree} :
    nodeForm knobs command ts = some (t, rest) ↔ ∃ c o cl ks cs mid mid',
      ts = c :: o :: mid ∧ isWord c ∧ o.text = "\x7b" ∧
      Descent.all knobs mid = some (ks, cl :: mid') ∧ cl.text = "\x7d" ∧
      Descent.all command mid' = some (cs, rest) ∧
      t = .list (.token c :: .token o :: (ks ++ .token cl :: cs)) := by
  simp only [nodeForm, Descent.sequence_eq_some, Descent.all_cons_eq_some, all_append_eq_some,
    Descent.one_eq_some, isText, beq_iff_eq]
  constructor
  · rintro ⟨_, ⟨_, _, _, ⟨c, rfl, hc, rfl⟩, ⟨_, mid, _, ⟨o, rfl, ho, rfl⟩,
      ⟨ks, _, _, hk, ⟨_, mid', cs, ⟨cl, rfl, hcl, rfl⟩, hcs, rfl⟩, rfl⟩, rfl⟩, rfl⟩, rfl⟩
    exact ⟨c, o, cl, ks, cs, mid, mid', rfl, hc, ho, hk, hcl, hcs, rfl⟩
  · rintro ⟨c, o, cl, ks, cs, mid, mid', rfl, hc, ho, hk, hcl, hcs, rfl⟩
    exact ⟨_, ⟨_, _, _, ⟨c, rfl, hc, rfl⟩, ⟨_, mid, _, ⟨o, rfl, ho, rfl⟩,
      ⟨ks, _, _, hk, ⟨_, mid', cs, ⟨cl, rfl, hcl, rfl⟩, hcs, rfl⟩, rfl⟩, rfl⟩, rfl⟩, rfl⟩

theorem read_command_eq_none_iff {ts : List Token} (hl : ts.length ≤ limit) :
    read limit (b + 1) "tcl_command" ts = none ↔ ∀ ts', IsCommand ts' → ¬ts' <+: ts := by
  constructor
  · rintro h ts' ⟨form, hform, hf⟩ ⟨rest, rfl⟩
    rw [read_command] at h
    have := List.findSome?_eq_none_iff.1 h form hform
    rw [sequence_ones_eq_some.2 ⟨ts', rfl, hf, rfl⟩] at this
    cases this
  · intro h
    exact (reads_command limit b).eq_none hl fun ts' rest he hc => h ts' hc.command ⟨rest, he.symm⟩

theorem read_knobs_mark {t : Token} (h : t.text ∈ marks) (rest : List Token) :
    read limit (b + 7) "knobs" (t :: rest) = none := by
  simp [read_knobs, sequence_singleton, Descent.oneOrMore, read_knob_mark limit b h]

/-- A tree of a node that a block denotes. -/
def BlockText.Makes (bl : BlockText) (t : Tree) : Prop :=
  ∃ n, bl.Denotes n ∧ t = .node n

/-- The part of a form between the braces: knobs or nothing. -/
def IsKnobPart (knobs : List Descent) : Prop :=
  knobs = [read limit (b + 7) "knobs"] ∨ knobs = []

/-- The part of a form after the braces: a stack command or nothing. -/
def IsCommandPart (command : List Descent) : Prop :=
  command = [read limit (b + 7) "tcl_command"] ∨ command = []

variable {limit b}

theorem IsKnobPart.sound {part : List Descent} (h : IsKnobPart limit b part)
    {ts rest : List Token} {cl : Token} {trees : List Tree} (hl : ts.length ≤ limit)
    (hp : Descent.all part ts = some (trees, cl :: rest)) (hcl : cl.text = "\x7d") :
    ∃ ks as, ts = ks.flatMap KnobText.tokens ++ cl :: rest ∧ (∀ k ∈ ks, k.WellFormed) ∧
      List.Forall₂ (fun k a => k.knob = .ok a) ks as ∧
      ∀ after, Builder.knobsUntilClose (trees ++ .token cl :: after) = .ok (as, after) := by
  rcases h with rfl | rfl
  · obtain ⟨t, _, _, ht, h, rfl⟩ := Descent.all_cons_eq_some.1 hp
    obtain ⟨rfl, rfl⟩ := Descent.all_nil_eq_some.1 h
    obtain ⟨ks, rfl, ⟨_, hks, _⟩, as, has, hb, htt⟩ := (reads_knobs limit b).sound hl ht
    exact ⟨ks, as, rfl, hks, has, knobsUntilClose_knobs hb htt hcl⟩
  · obtain ⟨rfl, rfl⟩ := Descent.all_nil_eq_some.1 hp
    exact ⟨[], [], rfl, by simp, .nil, knobsUntilClose_nil hcl⟩

theorem tokensList_command (ts : List Token) :
    Tree.tokensList [.list (ts.map .token)] = ts := by
  simp [Tree.tokensList_eq_flatMap, List.flatMap_map]

theorem IsCommandPart.sound {part : List Descent} (h : IsCommandPart limit b part)
    {ts rest : List Token} {trees : List Tree} (hl : ts.length ≤ limit)
    (hp : Descent.all part ts = some (trees, rest)) :
    ∃ command : Option (List Token), ts = command.getD [] ++ rest ∧
      (∀ c ∈ command, IsWholeCommand c rest) ∧ (command = none → part = []) ∧
      Tree.tokensList trees = command.getD [] := by
  rcases h with rfl | rfl
  · obtain ⟨t, _, _, ht, h, rfl⟩ := Descent.all_cons_eq_some.1 hp
    obtain ⟨rfl, rfl⟩ := Descent.all_nil_eq_some.1 h
    obtain ⟨c, rfl, hc, rfl⟩ := (reads_command limit (b + 6)).sound hl ht
    exact ⟨some c, rfl, by simpa using hc, by simp, tokensList_command c⟩
  · obtain ⟨rfl, rfl⟩ := Descent.all_nil_eq_some.1 hp
    exact ⟨none, rfl, by simp, fun _ => rfl, rfl⟩

theorem ofWords?_command (command : Option (List Token)) :
    Binding.ofWords? ((command.getD []).map Token.text) =
      command.bind fun ts => Binding.ofWords? (ts.map Token.text) := by
  cases command <;> rfl

/-- A form of a node reads a block, and the builder makes its node. A block without a stack command
is only read by a form without one. -/
theorem nodeForm_sound {knobs command : List Descent} (hk : IsKnobPart limit b knobs)
    (hc : IsCommandPart limit b command) {ts rest : List Token} {t : Tree} (hl : ts.length ≤ limit)
    (h : nodeForm knobs command ts = some (t, rest)) :
    ∃ bl : BlockText, ts = bl.tokens ++ rest ∧ isWord bl.className ∧ bl.opening.text = "\x7b" ∧
      (∀ k ∈ bl.knobs, k.WellFormed) ∧ bl.closing.text = "\x7d" ∧
      (∀ c ∈ bl.command, IsWholeCommand c rest) ∧ (bl.command = none → command = []) ∧
      ∃ n, bl.Denotes n ∧ Builder.buildNode t = .ok (.node n) := by
  obtain ⟨c, o, cl, ks, cs, mid, mid', rfl, hcw, ho, hts, hcl, hcs, rfl⟩ := nodeForm_eq_some.1 h
  simp only [List.length_cons] at hl
  obtain ⟨knobs, as, rfl, hks, has, hb⟩ := hk.sound (by omega) hts hcl
  simp only [List.length_append, List.length_cons] at hl
  obtain ⟨command, rfl, hcw', hcn, hct⟩ := hc.sound (by omega) hcs
  refine ⟨⟨c, o, knobs, cl, command⟩, by simp [BlockText.tokens], hcw, ho, hks, hcl, hcw', hcn, _,
    ⟨rfl, has, ?_⟩, buildNode_eq_ok ho (hb cs)⟩
  simp only [hct, ofWords?_command]

variable (limit b)

/-- The part of a form that reads some knobs. -/
def knobPart (ks : List KnobText) : List Descent :=
  if ks = [] then [] else [read limit (b + 7) "knobs"]

/-- The part of a form that reads a stack command, when there is one. -/
def commandPart (command : Option (List Token)) : List Descent :=
  if command = none then [] else [read limit (b + 7) "tcl_command"]

theorem knobPart_complete {ks : List KnobText} {rest : List Token} {cl : Token}
    (hcl : cl.text = "\x7d") (hl : (ks.flatMap KnobText.tokens ++ cl :: rest).length ≤ limit)
    (hks : ∀ k ∈ ks, k.WellFormed) :
    ∃ trees as, Descent.all (knobPart limit b ks) (ks.flatMap KnobText.tokens ++ cl :: rest) =
        some (trees, cl :: rest) ∧ List.Forall₂ (fun k a => k.knob = .ok a) ks as ∧
      ∀ after, Builder.knobsUntilClose (trees ++ .token cl :: after) = .ok (as, after) := by
  by_cases hne : ks = []
  · subst hne
    exact ⟨[], [], rfl, .nil, knobsUntilClose_nil hcl⟩
  · obtain ⟨t, ht, as, has, hb, htt⟩ := (reads_knobs limit b).complete ks (cl :: rest) hl
      ⟨hne, hks, read_knob_mark limit b (by simp [hcl, marks]) rest⟩
    exact ⟨[t], as, by simp [knobPart, hne, Descent.all, ht], has,
      knobsUntilClose_knobs hb htt hcl⟩

theorem commandPart_complete {command : Option (List Token)} {rest : List Token}
    (hl : (command.getD [] ++ rest).length ≤ limit) (hc : ∀ c ∈ command, IsWholeCommand c rest) :
    ∃ trees, Descent.all (commandPart limit b command) (command.getD [] ++ rest) =
      some (trees, rest) ∧ Tree.tokensList trees = command.getD [] := by
  cases command with
  | none => exact ⟨[], rfl, rfl⟩
  | some c =>
      obtain ⟨t, ht, rfl⟩ := (reads_command limit (b + 6)).complete c rest hl (hc c rfl)
      exact ⟨[_], by simp [commandPart, Descent.all, ht], tokensList_command c⟩

/-- A block is read by the form that has its parts, and the builder makes its node. -/
theorem nodeForm_complete {bl : BlockText} {rest : List Token}
    (hl : (bl.tokens ++ rest).length ≤ limit) (hw : bl.WellFormed rest) :
    ∃ t, nodeForm (knobPart limit b bl.knobs) (commandPart limit b bl.command)
        (bl.tokens ++ rest) = some (t, rest) ∧
      ∃ n, bl.Denotes n ∧ Builder.buildNode t = .ok (.node n) := by
  obtain ⟨c, o, knobs, cl, command⟩ := bl
  obtain ⟨hc, ho, hks, hcl, hcw, -⟩ := hw
  simp only at hc ho hks hcl hcw
  simp only [BlockText.tokens, List.cons_append, List.append_assoc, List.length_cons] at hl
  have hlc : (command.getD [] ++ rest).length ≤ limit := by
    simp only [List.length_append, List.length_cons] at hl ⊢
    omega
  have hlk := Nat.le_of_succ_le (Nat.le_of_succ_le hl)
  obtain ⟨ks, as, hka, has, hb⟩ := knobPart_complete limit b hcl hlk hks
  obtain ⟨cs, hca, hct⟩ := commandPart_complete limit b hlc hcw
  refine ⟨_, nodeForm_eq_some.2 ⟨c, o, cl, ks, cs, _, _, by simp [BlockText.tokens], hc, ho, hka,
    hcl, hca, rfl⟩, _, ⟨rfl, has, ?_⟩, buildNode_eq_ok ho (hb cs)⟩
  simp only [hct, ofWords?_command]

/-- A block read by a form without a stack command, where the form with one does not succeed, is
followed by none. -/
theorem nodeForm_alone {knobs : List Descent} (hk : IsKnobPart limit b knobs) {ts rest : List Token}
    {t : Tree} (hl : ts.length ≤ limit) (h : nodeForm knobs [] ts = some (t, rest))
    (hn : ∀ t' rest', nodeForm knobs [read limit (b + 7) "tcl_command"] ts = some (t', rest') →
      ∀ built, BuilderTable.standard.build "node" t' ≠ .ok built) :
    ∀ ts', IsCommand ts' → ¬ts' <+: rest := by
  obtain ⟨c, o, cl, ks, cs, mid, mid', rfl, hc, ho, hks, hcl, hcs, rfl⟩ := nodeForm_eq_some.1 h
  obtain ⟨rfl, rfl⟩ := Descent.all_nil_eq_some.1 hcs
  have hlr : mid'.length ≤ limit := by
    simp only [List.length_cons] at hl
    obtain ⟨_, _, rfl, -⟩ := hk.sound (by omega) hks hcl
    simp only [List.length_append, List.length_cons] at hl
    omega
  rw [← read_command_eq_none_iff limit (b + 6) hlr]
  match hr : read limit (b + 7) "tcl_command" mid' with
  | none => rfl
  | some (t', rest') =>
      have hcs : Descent.all [read limit (b + 7) "tcl_command"] mid' = some ([t'], rest') := by
        simp [Descent.all, hr]
      have hf := nodeForm_eq_some.2 ⟨c, o, cl, ks, [t'], mid, mid', rfl, hc, ho, hks, hcl, hcs, rfl⟩
      obtain ⟨_, _, _, _, _, _, _, _, n, _, hb⟩ := nodeForm_sound hk (.inl rfl) hl hf
      exact absurd hb (hn _ _ hf _)

/-- Where a form without a stack command leaves tokens that begin with none, the form with one
fails. -/
theorem nodeForm_command_eq_none {knobs : List Descent} {ts rest : List Token} {t : Tree}
    (h : nodeForm knobs [] ts = some (t, rest))
    (hr : read limit (b + 7) "tcl_command" rest = none) :
    nodeForm knobs [read limit (b + 7) "tcl_command"] ts = none := by
  match hf : nodeForm knobs [read limit (b + 7) "tcl_command"] ts with
  | none => rfl
  | some (t', rest') =>
      obtain ⟨c, o, cl, ks, cs, mid, mid', rfl, _, _, hks, _, hcs, _⟩ := nodeForm_eq_some.1 h
      obtain ⟨rfl, rfl⟩ := Descent.all_nil_eq_some.1 hcs
      obtain ⟨_, _, _, _, cs, _, _, hts, _, _, hks', _, hcs', _⟩ := nodeForm_eq_some.1 hf
      obtain ⟨rfl, rfl, rfl⟩ : _ ∧ _ ∧ _ := by simpa using hts
      obtain ⟨-, -, rfl⟩ : _ ∧ _ ∧ _ := by simpa using hks.symm.trans hks'
      simp [Descent.all, hr] at hcs'

/-- A form with knobs fails on a block without. -/
theorem nodeForm_knobs_eq_none {command' : List Descent} {ts rest : List Token} {t : Tree}
    (h : nodeForm [] command' ts = some (t, rest)) (command : List Descent) :
    nodeForm [read limit (b + 7) "knobs"] command ts = none := by
  match hf : nodeForm [read limit (b + 7) "knobs"] command ts with
  | none => rfl
  | some (t', rest') =>
      obtain ⟨c, o, cl, ks, cs, mid, mid', rfl, _, _, hks, hcl, _, _⟩ := nodeForm_eq_some.1 h
      obtain ⟨rfl, rfl⟩ := Descent.all_nil_eq_some.1 hks
      obtain ⟨_, _, _, _, _, _, _, hts, _, _, hks', _⟩ := nodeForm_eq_some.1 hf
      obtain ⟨rfl, rfl, rfl⟩ : _ ∧ _ ∧ _ := by simpa using hts
      simp [Descent.all, read_knobs_mark limit b (t := cl) (by simp [hcl, marks])] at hks'

theorem reads_node : Reads (read limit (b + 8) "node") limit BlockText.tokens
    BlockText.WellFormed BlockText.Makes where
  sound := fun {ts t rest} hl h => by
    have finish {knobs command : List Descent} {t' : Tree} (hk : IsKnobPart limit b knobs)
        (hc : IsCommandPart limit b command) (hf : nodeForm knobs command ts = some (t', rest))
        (hb : BuilderTable.standard.build "node" t' = .ok t)
        (ha : command = [] → ∀ ts', IsCommand ts' → ¬ts' <+: rest) :
        ∃ bl : BlockText, ts = bl.tokens ++ rest ∧ bl.WellFormed rest ∧ bl.Makes t := by
      obtain ⟨bl, rfl, hcw, ho, hks, hcl, hcm, hcn, n, hn, hb'⟩ := nodeForm_sound hk hc hl hf
      rw [build_node, hb'] at hb
      exact ⟨bl, rfl, ⟨hcw, ho, hks, hcl, hcm, fun h => ha (hcn h)⟩, n, hn,
        (Except.ok.inj hb).symm⟩
    rw [read_node_eq] at h
    simp only [Descent.rule_cons_eq_some, Descent.rule_nil] at h
    rcases h with ⟨t', hf, hb⟩ | ⟨hn, ⟨t', hf, hb⟩ | ⟨-, ⟨t', hf, hb⟩ |
      ⟨hn, ⟨t', hf, hb⟩ | ⟨-, h⟩⟩⟩⟩
    · exact finish (.inl rfl) (.inl rfl) hf hb (by simp)
    · exact finish (.inl rfl) (.inr rfl) hf hb fun _ => nodeForm_alone limit b (.inl rfl) hl hf hn
    · exact finish (.inr rfl) (.inl rfl) hf hb (by simp)
    · exact finish (.inr rfl) (.inr rfl) hf hb fun _ => nodeForm_alone limit b (.inr rfl) hl hf hn
    · cases h
  complete := fun bl rest hl hw => by
    obtain ⟨t, hf, n, hn, hb⟩ := nodeForm_complete limit b hl hw
    refine ⟨.node n, ?_, n, hn, rfl⟩
    have hb : BuilderTable.standard.build "node" t = .ok (.node n) := hb
    have hnone {ts : List Token} {f : Descent} (h : f ts = none) :
        ∀ t' rest', f ts = some (t', rest') →
          ∀ built, BuilderTable.standard.build "node" t' ≠ .ok built := by simp [h]
    have hcm (h : bl.command = none) : read limit (b + 7) "tcl_command" rest = none := by
      rw [read_command_eq_none_iff limit (b + 6) (by simp at hl; omega)]
      exact hw.alone h
    rw [read_node_eq]
    simp only [Descent.rule_cons_eq_some, Descent.rule_nil]
    -- the forms before the block's own are passed over: they want knobs or a command that it lacks
    by_cases hk : bl.knobs = [] <;> by_cases hc : bl.command = none <;>
      simp only [knobPart, commandPart, hk, hc, if_true, if_false] at hf
    · exact .inr ⟨hnone (nodeForm_knobs_eq_none limit b hf _),
        .inr ⟨hnone (nodeForm_knobs_eq_none limit b hf _),
          .inr ⟨hnone (nodeForm_command_eq_none limit b hf (hcm hc)), .inl ⟨t, hf, hb⟩⟩⟩⟩
    · exact .inr ⟨hnone (nodeForm_knobs_eq_none limit b hf _),
        .inr ⟨hnone (nodeForm_knobs_eq_none limit b hf _), .inl ⟨t, hf, hb⟩⟩⟩
    · exact .inr ⟨hnone (nodeForm_command_eq_none limit b hf (hcm hc)), .inl ⟨t, hf, hb⟩⟩
    · exact .inl ⟨t, hf, hb⟩

/-! ## Statements and scripts -/

/-- The nodes that a statement stands for. -/
def Statement.Denotes : Statement → List Node → Prop
  | .block bl, ns => ∃ n, bl.Denotes n ∧ ns = [n]
  | .command _, ns => ns = []

theorem nodes_command (ts : List Token) : (Tree.list (ts.map .token)).nodes = [] := by
  simp [Tree.nodes, Tree.nodesList_eq_flatMap]

/-- No stack command looks like the beginning of a block. -/
theorem second_of_isCommand {ts : List Token} (h : IsCommand ts) :
    ∃ first second rest, ts = first :: second :: rest ∧ second.text ≠ "\x7b" := by
  obtain ⟨form, hform, hf⟩ := h
  have hs : ∀ form ∈ commandForms, ∃ p q ps, form = p :: q :: ps ∧
      ∀ t, q t = true → t.text ≠ "\x7b" := by
    have word (t : Token) (h : isWord t = true) : t.text ≠ "\x7b" := fun ht => by
      simp [isWord_mark (t := t) (by simp [ht, marks])] at h
    have int (t : Token) (h : isInt t = true) : t.text ≠ "\x7b" := fun ht => by
      simp [isInt_mark (t := t) (by simp [ht, marks])] at h
    have float (t : Token) (h : isFloat t = true) : t.text ≠ "\x7b" := fun ht => by
      simp [isFloat_mark (t := t) (by simp [ht, marks])] at h
    have dollar (t : Token) (h : isText "$" t = true) : t.text ≠ "\x7b" := by
      simp [eq_of_beq h]
    simp only [commandForms, List.forall_mem_cons]
    exact ⟨⟨_, _, _, rfl, word⟩, ⟨_, _, _, rfl, dollar⟩, ⟨_, _, _, rfl, int⟩,
      ⟨_, _, _, rfl, float⟩, ⟨_, _, _, rfl, float⟩, by simp⟩
  obtain ⟨p, q, ps, rfl, hq⟩ := hs form hform
  obtain _ | ⟨_, _ | ⟨ht, _⟩⟩ := hf
  exact ⟨_, _, _, rfl, hq _ ht⟩

theorem read_node_command {ts rest : List Token} (h : IsCommand ts)
    (hl : (ts ++ rest).length ≤ limit) : read limit (b + 8) "node" (ts ++ rest) = none := by
  refine (reads_node limit b).eq_none hl fun bl rest' he hw => ?_
  obtain ⟨first, second, ts, rfl, hs⟩ := second_of_isCommand h
  simp only [BlockText.tokens, List.cons_append, List.cons.injEq] at he
  exact hs (he.2.1 ▸ hw.opening)

theorem reads_statement : Reads (read limit (b + 9) "statement") limit Statement.tokens
    Statement.WellFormed (fun s t => s.Denotes t.nodes) where
  sound := fun {ts t rest} hl h => by
    rw [read_statement, sequence_singleton, Option.map_eq_some_iff] at h
    obtain ⟨⟨t', rest'⟩, h, he⟩ := h
    obtain ⟨rfl, rfl⟩ := Prod.mk.inj he
    unfold Descent.alternation at h
    match hn : read limit (b + 8) "node" ts with
    | some success =>
        obtain rfl : success = (t', rest') := by simpa [hn] using h
        obtain ⟨bl, rfl, hw, n, hd, rfl⟩ := (reads_node limit b).sound hl hn
        exact ⟨.block bl, rfl, hw, n, hd, by simp [Tree.nodes_flatten, Tree.nodes]⟩
    | none =>
        simp only [hn] at h
        obtain ⟨c, rfl, hc, rfl⟩ := (reads_command limit (b + 7)).sound hl h
        refine ⟨.command c, rfl, hc, ?_⟩
        rw [Tree.nodes_flatten, nodes_command]
        rfl
  complete := fun s rest hl hw => by
    rw [read_statement]
    simp only [sequence_singleton, Descent.alternation]
    cases s with
    | block bl =>
        obtain ⟨_, ht, n, hn, rfl⟩ := (reads_node limit b).complete bl rest hl hw
        exact ⟨.node n, by simp [Statement.tokens, ht, Tree.flatten], n, hn, by simp [Tree.nodes]⟩
    | command ts =>
        obtain ⟨t, ht, rfl⟩ := (reads_command limit (b + 7)).complete ts rest hl hw
        have hn := read_node_command limit b hw.command hl
        refine ⟨(Tree.list (ts.map .token)).flatten, ?_, ?_⟩
        · simp only [Statement.tokens, hn, ht, Option.map_some]
        · rw [Tree.nodes_flatten, nodes_command]
          rfl

theorem statement_tokens_ne_nil {s : Statement} {rest : List Token} (h : s.WellFormed rest) :
    s.tokens ≠ [] := by
  cases s with
  | block bl => exact List.cons_ne_nil _ _
  | command ts =>
      obtain ⟨_, _, _, rfl, _⟩ := second_of_isCommand h.command
      exact List.cons_ne_nil _ _

theorem inTurn_iff_wellFormed (ss : List Statement) :
    Descent.InTurn Statement.tokens Statement.WellFormed ss [] ↔ WellFormed ss := by
  induction ss with
  | nil => rfl
  | cons s ss ih => simp [Descent.InTurn, WellFormed, ih, tokensOf]

/-- The nodes of the trees of statements are those of the blocks, in order. -/
theorem denotes_blocksOf {ss : List Statement} {trees : List Tree}
    (h : List.Forall₂ (fun s t => s.Denotes t.nodes) ss trees) :
    List.Forall₂ BlockText.Denotes (blocksOf ss) (Tree.list trees).flatten.nodes := by
  rw [Tree.nodes_flatten, Tree.nodes, Tree.nodesList_eq_flatMap]
  induction h with
  | nil => exact .nil
  | @cons s t ss trees hs _ ih =>
      cases s with
      | block bl =>
          obtain ⟨n, hn, hs⟩ := hs
          simpa [blocksOf, Statement.block?, hs] using ⟨hn, ih⟩
      | command ts =>
          have hs : t.nodes = [] := hs
          rw [List.flatMap_cons, hs]
          exact ih

theorem main_sound {ts : List Token} {t : Tree} (hl : ts.length ≤ limit)
    (h : read limit (b + 10) "main" ts = some (t, [])) :
    ∃ ss, ts = tokensOf ss ∧ WellFormed ss ∧
      List.Forall₂ BlockText.Denotes (blocksOf ss) t.nodes := by
  rw [read_main, sequence_singleton, Option.map_eq_some_iff] at h
  obtain ⟨⟨t', rest'⟩, ht, he⟩ := h
  obtain ⟨rfl, rfl⟩ := Prod.mk.inj he
  obtain ⟨ss, rfl, ⟨_, hss, _⟩, trees, hts, rfl⟩ :=
    ((reads_statement limit b).oneOrMore statement_tokens_ne_nil).sound hl ht
  refine ⟨ss, by simp [tokensOf], (inTurn_iff_wellFormed ss).1 hss, ?_⟩
  rw [Tree.nodes_flatten]
  exact denotes_blocksOf hts

theorem main_complete {ss : List Statement} (hne : ss ≠ []) (hw : WellFormed ss)
    (hl : (tokensOf ss).length ≤ limit) :
    ∃ t, read limit (b + 10) "main" (tokensOf ss) = some (t, []) ∧
      List.Forall₂ BlockText.Denotes (blocksOf ss) t.nodes := by
  have hnone : read limit (b + 9) "statement" [] = none :=
    (reads_statement limit b).eq_none (Nat.zero_le _) fun s rest he hs =>
      statement_tokens_ne_nil hs (List.append_eq_nil_iff.1 he.symm).1
  obtain ⟨t, ht, trees, hts, rfl⟩ :=
    ((reads_statement limit b).oneOrMore statement_tokens_ne_nil).complete ss []
      (by simpa [tokensOf] using hl) ⟨hne, (inTurn_iff_wellFormed ss).2 hw, hnone⟩
  rw [List.append_nil] at ht
  refine ⟨(Tree.list trees).flatten.flatten, ?_, ?_⟩
  · rw [read_main, sequence_singleton, tokensOf, ht, Option.map_some]
  · rw [Tree.nodes_flatten]
    exact denotes_blocksOf hts

end NodeScript.Script
