import NodeScript.Proofs.Grammar.Calls
import NodeScript.Proofs.Grammar.Termination
import NodeScript.Proofs.Script.Nesting
import NodeScript.Proofs.Token.Numbers

/-!
# What builders refuse

While scripts are resolved, builders are called only with trees that alternatives of their rules
make, in whatever attempt. For each rule these are of one shape, and where every token stands for a
scalar only a frame of a curve can make a builder refuse its tree.
-/

namespace NodeScript

namespace RuleTable

/-- The rules of scripts, with values and blocks that are among those of nested blocks. -/
structure IsWithinNested (table : RuleTable) : Prop where
  keeps : table.KeepsRules
  values : table.phrasesOf "knob_value" ⊆ nested.phrasesOf "knob_value"
  blocks : table.phrasesOf "block" ⊆ nested.phrasesOf "block"

theorem isWithinNested_script : script.IsWithinNested where
  keeps := keepsRules_script
  values := by decide
  blocks := by decide

theorem isWithinNested_nested : nested.IsWithinNested where
  keeps := keepsRules_nested
  values := List.Subset.refl _
  blocks := List.Subset.refl _

end RuleTable

namespace Token

theorem exists_cast {t : Token} (h : t.cast.isOk) : ∃ v, t.cast = .ok v := by
  cases hv : t.cast with
  | ok v => exact ⟨v, rfl⟩
  | error e => simp [hv, Except.isOk, Except.toBool] at h

end Token

namespace Builder

theorem exists_castAll {ts : List Token} (h : ∀ t ∈ ts, t.cast.isOk) :
    ∃ vs, castAll ts = .ok vs := by
  induction ts with
  | nil => exact ⟨[], rfl⟩
  | cons t ts ih =>
      obtain ⟨ht, hts⟩ := List.forall_mem_cons.1 h
      obtain ⟨v, hv⟩ := Token.exists_cast ht
      obtain ⟨vs, hvs⟩ := ih hts
      exact ⟨v :: vs, by simp [castAll, hv, hvs, bind, Except.bind]⟩

theorem checkFrames_eq_error {pairs : List (Token × Token)} {e : CastError}
    (h : checkFrames pairs = .error e) :
    ∃ p ∈ pairs, p.1.castFrame = .error e := by
  induction pairs with
  | nil => cases h
  | cons p pairs ih =>
      obtain ⟨frame, value⟩ := p
      match hf : frame.castFrame with
      | .error e' =>
          obtain rfl : e' = e := by simpa [checkFrames, hf, bind, Except.bind] using h
          exact ⟨_, .head _, hf⟩
      | .ok i =>
          obtain ⟨p, hp, he⟩ := ih (by simpa [checkFrames, hf, bind, Except.bind] using h)
          exact ⟨p, .tail _ hp, he⟩

end Builder

namespace Script

open NodeScript.Graph (CanMake Tries)

section Blocks

variable {c o cl : Token} (ho : o.text = "\x7b") (hcl : cl.text = "\x7d") (after : List Tree)
include ho hcl

/-- A block of knobs makes a node, whatever comes after it. -/
theorem exists_buildNode_knobs {knobs : Tree}
    (h : (∃ as, Builder.attributesOf knobs = .ok as) ∧ knobs.tokens = []) : ∃ n,
      Builder.buildNode (.list (.token c :: .token o :: knobs :: .token cl :: after)) =
        .ok (.node n) := by
  obtain ⟨⟨as, has⟩, hnone⟩ := h
  have read : Builder.knobsUntilClose ([knobs] ++ .token cl :: after) = .ok (as, after) :=
    knobsUntilClose_knobs has hnone hcl after
  exact ⟨_, buildNode_eq_ok ho read⟩

/-- So does a block of none. -/
theorem exists_buildNode_empty : ∃ n,
    Builder.buildNode (.list (.token c :: .token o :: .token cl :: after)) = .ok (.node n) := by
  have read : Builder.knobsUntilClose ([] ++ .token cl :: after) = .ok ([], after) :=
    knobsUntilClose_nil hcl after
  exact ⟨_, buildNode_eq_ok ho read⟩

end Blocks

/-- A compiled grammar of scripts, the standard builders, and tokens that all stand for scalars. -/
structure Situation (table : RuleTable) (g : Graph) (input : Input) : Prop where
  rules : table.IsWithinNested
  compiled : Graph.compile table .script = .ok g
  builders : input.builders = .standard
  casts : ∀ a ∈ input.tokens, a.cast.isOk

namespace Situation

variable {table : RuleTable} {g : Graph} {input : Input} (s : Situation table g input) {t : Tree}
include s

/-- The tree of a rule that has no builder is the tree of one of its alternatives. -/
theorem unbuilt {name : String} (hn : BuilderTable.standard.get? name = none)
    (h : g.CanMake .script input (.rule name) t) : g.Tries table .script input name t := by
  obtain ⟨t', h, hb⟩ := h.rule s.compiled
  rw [s.builders, BuilderTable.build, hn] at hb
  cases hb
  exact h

/-- An alternative of a rule of scripts has made the tree. -/
theorem phrases {name : String} (hn : name ∈ RuleTable.rulesBesideValues)
    (h : g.Tries table .script input name t) :
    ∃ phrases, some phrases ∈ RuleTable.script.phrasesOf name ∧ ∃ trees,
      List.Forall₂ (g.CanMake .script input) phrases trees ∧ t = (Tree.list trees).flatten := by
  rwa [Tries, s.rules.keeps name hn] at h

/-- The only alternative of such a rule has made the tree. -/
theorem only {name : String} {phrases : List Phrase}
    (hp : RuleTable.script.phrasesOf name = [some phrases])
    (hn : name ∈ RuleTable.rulesBesideValues) (h : g.Tries table .script input name t) :
    ∃ trees, List.Forall₂ (g.CanMake .script input) phrases trees ∧
      t = (Tree.list trees).flatten := by
  obtain ⟨phrases', hm, made⟩ := s.phrases hn h
  rw [hp] at hm
  obtain rfl := Option.some.inj (List.mem_singleton.1 hm)
  exact made

theorem scalar (h : g.CanMake .script input (.rule "scalar") t) :
    ∃ a ∈ input.tokens, t = .token a := by
  obtain ⟨trees, hm, rfl⟩ := s.only RuleTable.phrasesOf_scalar (by decide) (s.unbuilt rfl h)
  obtain _ | ⟨hm, _ | _⟩ := hm
  obtain ⟨row, hm⟩ : ∃ row, g.CanMake .script input (.terminal row) _ := by
    rcases hm.alternation with hm | hm
    · rcases hm.alternation with hm | hm
      · exact hm.alternation.elim (fun hm => ⟨_, hm⟩) fun hm => ⟨_, hm⟩
      · exact ⟨_, hm⟩
    · exact ⟨_, hm⟩
  obtain ⟨a, ha, -, rfl⟩ := hm.terminal
  exact ⟨a, ha, rfl⟩

theorem number (h : g.CanMake .script input (.rule "number") t) :
    ∃ a ∈ input.tokens, isNumber a ∧ t = .token a := by
  obtain ⟨trees, hm, rfl⟩ := s.only RuleTable.phrasesOf_number (by decide) (s.unbuilt rfl h)
  obtain _ | ⟨hm, _ | _⟩ := hm
  rcases hm.alternation with hm | hm
  · obtain ⟨a, ha, hrow, rfl⟩ := hm.terminal
    have hf : isFloat a = true := hrow
    exact ⟨a, ha, by simp [isNumber, hf], rfl⟩
  · obtain ⟨a, ha, hrow, rfl⟩ := hm.terminal
    have hi : isInt a = true := hrow
    exact ⟨a, ha, by simp [isNumber, hi], rfl⟩

/-! ## Curves -/

theorem keyframe (h : g.CanMake .script input (.rule "keyframe") t) :
    ∃ k : KeyframeText, k.WellFormed ∧ k.number ∈ input.tokens ∧ t.tokens = k.tokens := by
  obtain ⟨trees, hm, rfl⟩ := s.only RuleTable.phrasesOf_keyframe (by decide) (s.unbuilt rfl h)
  obtain _ | ⟨hframe, _ | ⟨hnumber, _ | _⟩⟩ := hm
  obtain ⟨frame, -, hf, rfl⟩ := hframe.terminal
  obtain ⟨number, hin, hn, rfl⟩ := s.number hnumber
  exact ⟨⟨frame, number⟩, ⟨hf, hn⟩, hin, by simp [KeyframeText.tokens]⟩

theorem keyframes {trees : List Tree}
    (h : ∀ t ∈ trees, g.CanMake .script input (.rule "keyframe") t) :
    ∃ ks : List KeyframeText, ks.length = trees.length ∧ (∀ k ∈ ks, k.WellFormed) ∧
      (∀ k ∈ ks, k.number ∈ input.tokens) ∧
      trees.flatMap Tree.tokens = ks.flatMap KeyframeText.tokens := by
  induction trees with
  | nil => exact ⟨[], rfl, by simp, by simp, rfl⟩
  | cons t trees ih =>
      obtain ⟨ht, hts⟩ := List.forall_mem_cons.1 h
      obtain ⟨k, hk, hin, hkt⟩ := s.keyframe ht
      obtain ⟨ks, hl, hks, hins, hkst⟩ := ih hts
      exact ⟨k :: ks, congrArg Nat.succ hl, List.forall_mem_cons.2 ⟨hk, hks⟩,
        List.forall_mem_cons.2 ⟨hin, hins⟩, by simp [hkt, hkst]⟩

theorem curve (h : g.CanMake .script input (.rule "curve") t) :
    ∃ c : CurveText, c.WellFormed ∧ (∀ k ∈ c.keyframes, k.number ∈ input.tokens) ∧
      t.tokens = c.tokens := by
  obtain ⟨trees, hm, rfl⟩ := s.only RuleTable.phrasesOf_curve (by decide) (s.unbuilt rfl h)
  obtain _ | ⟨hopening, _ | ⟨hword, _ | ⟨hkeyframes, _ | ⟨hclosing, _ | _⟩⟩⟩⟩ := hm
  obtain ⟨o, -, ho, rfl⟩ := hopening.literal
  obtain ⟨w, -, hw, rfl⟩ := hword.literal
  obtain ⟨trees, hne, hall, rfl⟩ := hkeyframes.oneOrMore
  obtain ⟨cl, -, hcl, rfl⟩ := hclosing.literal
  obtain ⟨ks, hl, hks, hins, hkst⟩ := s.keyframes hall
  have some_keyframe : ks ≠ [] := by
    rintro rfl
    exact hne (List.length_eq_zero_iff.1 hl.symm)
  exact ⟨⟨o, w, ks, cl⟩, ⟨ho, hw, hks, some_keyframe, hcl⟩, hins, by
    simp [CurveText.tokens, hkst]⟩

/-- What the builder of curves is called with is a curve, in one pair of braces or in two. -/
theorem animatedValue (h : g.Tries table .script input "animated_value" t) :
    ∃ c : CurveText, c.WellFormed ∧ (∀ k ∈ c.keyframes, k.number ∈ input.tokens) ∧
      (∀ k ∈ c.keyframes, k.frame ∈ t.tokens) ∧
      (t.tokens.filter fun t => t.text != "\x7b" && t.text != "\x7d") =
        c.word :: c.keyframes.flatMap KeyframeText.tokens := by
  have frames {c : CurveText} {ts : List Token} (h : ∀ a ∈ c.tokens, a ∈ ts) :
      ∀ k ∈ c.keyframes, k.frame ∈ ts := by
    intro k hk
    have : k.frame ∈ c.keyframes.flatMap KeyframeText.tokens :=
      List.mem_flatMap.2 ⟨k, hk, by simp [KeyframeText.tokens]⟩
    exact h _ (by simp [CurveText.tokens, this])
  obtain ⟨phrases, hp, trees, hm, rfl⟩ := s.phrases (by decide) h
  rw [RuleTable.phrasesOf_animatedValue] at hp
  simp only [List.mem_cons, List.not_mem_nil, or_false, Option.some.injEq] at hp
  rcases hp with rfl | rfl
  · obtain _ | ⟨hopening, _ | ⟨hcurve, _ | ⟨hclosing, _ | _⟩⟩⟩ := hm
    obtain ⟨o, -, ho, rfl⟩ := hopening.literal
    obtain ⟨c, hc, hins, hct⟩ := s.curve hcurve
    obtain ⟨cl, -, hcl, rfl⟩ := hclosing.literal
    exact ⟨c, hc, hins, frames (by simp +contextual [hct]), by
      simp [hct, ho, hcl, filter_curve hc]⟩
  · obtain _ | ⟨hcurve, _ | _⟩ := hm
    obtain ⟨c, hc, hins, hct⟩ := s.curve hcurve
    exact ⟨c, hc, hins, frames (by simp [hct]), by simp [hct, filter_curve hc]⟩

/-- The builder of curves takes what it is called with, or refuses it for one of the frames. -/
theorem build_animatedValue (h : g.Tries table .script input "animated_value" t) :
    (∃ built, Builder.buildAnimatedValue t = .ok built) ∨
      ∃ frame ∈ t.tokens, ∃ e, frame.castFrame = .error e ∧
        Builder.buildAnimatedValue t = .error (.cast e) := by
  obtain ⟨c, hc, -, hframes, htokens⟩ := s.animatedValue h
  match hf : Builder.checkFrames c.pairs with
  | .ok () => exact .inl ⟨_, (buildAnimatedValue_eq_ok hc htokens).2 ⟨(framesCast_iff c).2 hf, rfl⟩⟩
  | .error e =>
      obtain ⟨p, hp, he⟩ := Builder.checkFrames_eq_error hf
      obtain ⟨k, hk, rfl⟩ := List.mem_map.1 hp
      refine .inr ⟨k.frame, hframes k hk, e, he, ?_⟩
      obtain ⟨p, ps, hpairs⟩ : ∃ p ps, c.pairs = p :: ps :=
        List.exists_cons_of_ne_nil (List.ne_nil_of_mem hp)
      have paired : Builder.pairUp? (c.keyframes.flatMap KeyframeText.tokens) = some c.pairs :=
        pairUp?_keyframes _
      rw [hpairs] at hf
      simp only [Builder.buildAnimatedValue, htokens, Builder.withoutCurveWord, hc.word, if_true,
        paired, hpairs, hf]

/-! ## Values -/

theorem scalars {trees : List Tree} (h : ∀ t ∈ trees, g.CanMake .script input (.rule "scalar") t) :
    ∃ items : List Token, (∀ a ∈ items, a ∈ input.tokens) ∧ trees = items.map .token := by
  induction trees with
  | nil => exact ⟨[], by simp, rfl⟩
  | cons t trees ih =>
      obtain ⟨ht, hts⟩ := List.forall_mem_cons.1 h
      obtain ⟨a, ha, rfl⟩ := s.scalar ht
      obtain ⟨items, hins, rfl⟩ := ih hts
      exact ⟨a :: items, List.forall_mem_cons.2 ⟨ha, hins⟩, rfl⟩

/-- The builder of channels takes what it is called with. -/
theorem build_multiValue (h : g.Tries table .script input "multi_value" t) :
    ∃ items : List Token, (∀ a ∈ items, a ∈ input.tokens) ∧
      Builder.buildMultiValue t = .ok (.channels items) := by
  have enclosed {first last : String} (hd : Builder.areDelimiters first last) {trees : List Tree}
      (hm : List.Forall₂ (g.CanMake .script input)
        [.literal first, .oneOrMore (.rule "scalar"), .literal last] trees) :
      ∃ items : List Token, (∀ a ∈ items, a ∈ input.tokens) ∧
        Builder.buildMultiValue (Tree.list trees).flatten = .ok (.channels items) := by
    obtain _ | ⟨hopening, _ | ⟨hitems, _ | ⟨hclosing, _ | _⟩⟩⟩ := hm
    obtain ⟨o, -, rfl, rfl⟩ := hopening.literal
    obtain ⟨trees, hne, hall, rfl⟩ := hitems.oneOrMore
    obtain ⟨cl, -, rfl, rfl⟩ := hclosing.literal
    obtain ⟨items, hins, rfl⟩ := s.scalars hall
    have some_item : items ≠ [] := by
      rintro rfl
      exact hne rfl
    exact ⟨items, hins, (buildMultiValue_eq_ok hd some_item (by
      simp [List.flatMap_map])).2 rfl⟩
  obtain ⟨phrases, hp, trees, hm, rfl⟩ := s.phrases (by decide) h
  rw [RuleTable.phrasesOf_multiValue] at hp
  simp only [List.mem_cons, List.not_mem_nil, or_false, Option.some.injEq] at hp
  rcases hp with rfl | rfl
  · exact enclosed rfl hm
  · exact enclosed rfl hm

theorem block (h : g.CanMake .script input (.rule "block") t) :
    ∃ first second rest, t = .list (first :: second :: rest) := by
  obtain ⟨phrases, hp, trees, hm, rfl⟩ := s.unbuilt rfl h
  have hp := s.rules.blocks hp
  rw [RuleTable.phrasesOf_nested_block] at hp
  simp only [List.mem_cons, List.not_mem_nil, or_false, Option.some.injEq] at hp
  rcases hp with rfl | rfl
  · obtain _ | ⟨_, _ | ⟨_, _ | ⟨_, _ | _⟩⟩⟩ := hm
    exact ⟨_, _, _, rfl⟩
  · obtain _ | ⟨_, _ | ⟨_, _ | _⟩⟩ := hm
    exact ⟨_, _, _, rfl⟩

/-- The tree of a knob's value stands for a value. -/
theorem knobValue (h : g.CanMake .script input (.rule "knob_value") t) :
    ∃ v, Builder.valueOf t = .ok v := by
  obtain ⟨phrases, hp, trees, hm, rfl⟩ := s.unbuilt rfl h
  have hp := s.rules.values hp
  rw [RuleTable.phrasesOf_nested_knobValue] at hp
  simp only [List.mem_cons, List.not_mem_nil, or_false, Option.some.injEq] at hp
  rcases hp with rfl | rfl | rfl | rfl
  · obtain _ | ⟨hm, _ | _⟩ := hm
    obtain ⟨t', h, hb⟩ := hm.rule s.compiled
    rw [s.builders] at hb
    obtain ⟨c, hc, hins, -, htokens⟩ := s.animatedValue h
    obtain ⟨hf, rfl⟩ := (buildAnimatedValue_eq_ok hc htokens).1 hb
    -- the frames have been cast before, when the curve was built
    obtain ⟨ks, hks⟩ : ∃ ks, Builder.castPairs c.pairs = .ok ks :=
      castPairs_isOk hf fun k hk => s.casts _ (hins k hk)
    exact ⟨.animated ⟨ks⟩, by
      simp [Tree.flatten, Builder.valueOf, hks, Except.map, Except.mapError]⟩
  · obtain _ | ⟨hm, _ | _⟩ := hm
    obtain ⟨t', h, hb⟩ := hm.rule s.compiled
    rw [s.builders] at hb
    obtain ⟨items, hins, hb'⟩ := s.build_multiValue h
    obtain rfl := Except.ok.inj (hb'.symm.trans hb)
    obtain ⟨vs, hvs⟩ := Builder.exists_castAll fun a ha => s.casts a (hins a ha)
    exact ⟨.multi (.ofValues vs), by
      simp [Tree.flatten, Builder.valueOf, hvs, Except.map, Except.mapError]⟩
  · obtain _ | ⟨hm, _ | _⟩ := hm
    obtain ⟨first, second, rest, rfl⟩ := s.block hm
    exact ⟨_, rfl⟩
  · obtain _ | ⟨hm, _ | _⟩ := hm
    obtain ⟨a, ha, rfl⟩ := s.scalar hm
    obtain ⟨v, hv⟩ := Token.exists_cast (s.casts a ha)
    exact ⟨.scalar v, by
      simp [Tree.flatten, Builder.valueOf, hv, Except.map, Except.mapError]⟩

/-! ## Knobs and nodes -/

/-- The builder of knobs takes what it is called with. -/
theorem build_knob (h : g.Tries table .script input "knob" t) :
    ∃ a, Builder.buildAttribute t = .ok (.attribute a) := by
  obtain ⟨trees, hm, rfl⟩ := s.only RuleTable.phrasesOf_knob (by decide) h
  obtain _ | ⟨hname, _ | ⟨hvalue, _ | _⟩⟩ := hm
  obtain ⟨n, -, -, rfl⟩ := hname.terminal
  obtain ⟨v, hv⟩ := s.knobValue hvalue
  exact ⟨⟨n.text, v⟩, by simp [Tree.flatten, Builder.buildAttribute, Tree.items, hv, Except.map]⟩

theorem knob (h : g.CanMake .script input (.rule "knob") t) : ∃ a, t = .attribute a := by
  obtain ⟨t', h, hb⟩ := h.rule s.compiled
  rw [s.builders] at hb
  obtain ⟨a, ha⟩ := s.build_knob h
  exact ⟨a, Except.ok.inj (hb.symm.trans ha)⟩

/-- Knobs are there as they are, and none of their tokens. -/
theorem knobs (h : g.CanMake .script input (.rule "knobs") t) :
    (∃ as, Builder.attributesOf t = .ok as) ∧ t.tokens = [] := by
  obtain ⟨trees, hm, rfl⟩ := s.only RuleTable.phrasesOf_knobs (by decide) (s.unbuilt rfl h)
  obtain _ | ⟨hm, _ | _⟩ := hm
  obtain ⟨trees, -, hall, rfl⟩ := hm.oneOrMore
  obtain ⟨as, rfl⟩ := exists_attributes fun t ht => s.knob (hall t ht)
  exact ⟨⟨as, by simp [attributesOf_flatten, Builder.attributesOf, Builder.attributesOfList,
    attributesOfList_map, bind, Except.bind]⟩, by simp [tokens_attributes]⟩

/-- The builder of nodes takes what it is called with. -/
theorem build_node (h : g.Tries table .script input "node" t) :
    ∃ n, Builder.buildNode t = .ok (.node n) := by
  obtain ⟨phrases, hp, trees, hm, rfl⟩ := s.phrases (by decide) h
  rw [RuleTable.phrasesOf_node] at hp
  simp only [List.mem_cons, List.not_mem_nil, or_false, Option.some.injEq] at hp
  rcases hp with rfl | rfl | rfl | rfl
  · obtain _ | ⟨hclass, _ | ⟨hopening, _ | ⟨hknobs, _ | ⟨hclosing, _ | ⟨_, _ | _⟩⟩⟩⟩⟩ := hm
    obtain ⟨c, -, -, rfl⟩ := hclass.terminal
    obtain ⟨o, -, ho, rfl⟩ := hopening.literal
    obtain ⟨cl, -, hcl, rfl⟩ := hclosing.literal
    exact exists_buildNode_knobs ho hcl _ (s.knobs hknobs)
  · obtain _ | ⟨hclass, _ | ⟨hopening, _ | ⟨hknobs, _ | ⟨hclosing, _ | _⟩⟩⟩⟩ := hm
    obtain ⟨c, -, -, rfl⟩ := hclass.terminal
    obtain ⟨o, -, ho, rfl⟩ := hopening.literal
    obtain ⟨cl, -, hcl, rfl⟩ := hclosing.literal
    exact exists_buildNode_knobs ho hcl _ (s.knobs hknobs)
  · obtain _ | ⟨hclass, _ | ⟨hopening, _ | ⟨hclosing, _ | ⟨_, _ | _⟩⟩⟩⟩ := hm
    obtain ⟨c, -, -, rfl⟩ := hclass.terminal
    obtain ⟨o, -, ho, rfl⟩ := hopening.literal
    obtain ⟨cl, -, hcl, rfl⟩ := hclosing.literal
    exact exists_buildNode_empty ho hcl _
  · obtain _ | ⟨hclass, _ | ⟨hopening, _ | ⟨hclosing, _ | _⟩⟩⟩ := hm
    obtain ⟨c, -, -, rfl⟩ := hclass.terminal
    obtain ⟨o, -, ho, rfl⟩ := hopening.literal
    obtain ⟨cl, -, hcl, rfl⟩ := hclosing.literal
    exact exists_buildNode_empty ho hcl _

end Situation

/-- The builder of the rule takes the tree, or the tree is that of a curve and is refused for a
frame in it, with the error of casting that frame. -/
def RefusesFrames (builders : BuilderTable) (name : String) (t : Tree) : Prop :=
  (∃ built, builders.build name t = .ok built) ∨
    name = "animated_value" ∧ ∃ frame ∈ t.tokens, ∃ e, frame.castFrame = .error e ∧
      builders.build name t = .error (.cast e)

theorem build_of_notMem {name : String} (h : name ∉ BuilderTable.standard.keys) (t : Tree) :
    BuilderTable.standard.build name t = .ok t := by
  have missing : BuilderTable.standard.get? name = none :=
    List.lookup_eq_none_iff.2 fun entry he => bne_iff_ne.2 fun hn =>
      h (hn ▸ List.mem_map_of_mem he)
  rw [BuilderTable.build, missing]

theorem Situation.refusesFrames {table : RuleTable} {g : Graph} {input : Input}
    (s : Situation table g input) {name : String} {t : Tree}
    (h : g.Tries table .script input name t) : RefusesFrames input.builders name t := by
  rw [s.builders]
  by_cases hn : name ∈ BuilderTable.standard.keys
  · have keys : BuilderTable.standard.keys = ["node", "knob", "multi_value", "animated_value"] := by
      decide
    simp only [keys, List.mem_cons, List.not_mem_nil, or_false] at hn
    rcases hn with rfl | rfl | rfl | rfl
    · obtain ⟨n, hn⟩ := s.build_node h
      exact .inl ⟨_, hn⟩
    · obtain ⟨a, ha⟩ := s.build_knob h
      exact .inl ⟨_, ha⟩
    · obtain ⟨items, -, hb⟩ := s.build_multiValue h
      exact .inl ⟨_, hb⟩
    · exact (s.build_animatedValue h).imp_right fun refused => ⟨rfl, refused⟩
  · exact .inl ⟨t, build_of_notMem hn t⟩

end Script

namespace ScriptParser

open Script
open NodeScript.Graph (Machine)

/-- The machine that resolves tokens from the root rule, after some steps. -/
def resolving (p : ScriptParser) (ts : List Token) (count : Nat) : Machine :=
  (Machine.step p.graph ⟨ts.toArray, p.builders⟩)^[count] ⟨.node p.root 0, [], .fresh⟩

/-- The parser is the shipped one, or the one with nested blocks laid over it. -/
theorem situation_of_mem {parser : Except AssemblyError ScriptParser}
    (h : parser ∈ [shipped, nested]) : ∃ p table, parser = .ok p ∧ p.tokens = .script ∧
      p.graph.rule? RuleTable.rootRule = some p.root ∧ ∀ text ts, p.tokenize text = .ok ts →
        Situation table p.graph ⟨ts.toArray, p.builders⟩ := by
  have casts {p : ScriptParser} (hp : p.tokens = .script) {text : String} {ts : List Token}
      (hts : p.tokenize text = .ok ts) : ∀ t ∈ ts, t.cast.isOk := by
    intro t ht
    rw [tokenize, hp] at hts
    cases hall : TokenTable.script.tokenize text with
    | error e => simp [hall, Except.map] at hts
    | ok all =>
        obtain rfl : Token.significant all = ts := by simpa [hall, Except.map] using hts
        exact TokenTable.isOk_cast_of_mem hall (List.mem_filter.1 ht).1
  simp only [List.mem_cons, List.not_mem_nil, or_false] at h
  rcases h with h | h
  · obtain ⟨p, hp, hs⟩ := shipped_isScript
    refine ⟨p, .script, h.trans hp, hs.tokens, hs.root, fun text ts hts => ?_⟩
    exact ⟨RuleTable.isWithinNested_script, hs.compiled, hs.builders, by
      simpa using casts hs.tokens hts⟩
  · obtain ⟨p, hp, hn⟩ := nested_isNested
    refine ⟨p, .nested, h.trans hp, hn.tokens, hn.root, fun text ts hts => ?_⟩
    exact ⟨RuleTable.isWithinNested_nested, hn.compiled, hn.builders, by
      simpa using casts hn.tokens hts⟩

/-- While the tokens of a text are resolved by the shipped rules, with nested blocks or without, the
builders take every tree that they are called with, except for curves with a frame that is no whole
number of 64 bits. Every token stands for a scalar. -/
theorem only_frames_refused : ∀ parser ∈ [shipped, nested], ∃ p, parser = .ok p ∧
    ∀ text ts, p.tokenize text = .ok ts →
      (∃ count, p.resolving ts count = Machine.finish
        (p.graph.resolve ⟨ts.toArray, p.builders⟩ p.root) 0 [] .fresh) ∧
      (∀ count name t, (p.resolving ts count).call? = some (name, t) →
        RefusesFrames p.builders name t) ∧
      ∀ t ∈ ts, t.cast.isOk := by
  intro parser h
  obtain ⟨p, table, hp, -, hroot, situation⟩ := situation_of_mem h
  refine ⟨p, hp, fun text ts hts => ?_⟩
  have s := situation text ts hts
  obtain ⟨_, hn, -⟩ := Graph.compile_defines s.compiled hroot
  have inside : p.root < p.graph.nodes.size := (Array.getElem?_eq_some_iff.1 hn).1
  exact ⟨Graph.resolving_ends s.compiled _ inside 0 [] .fresh,
    fun count name t hc => s.refusesFrames (Graph.tries_of_call? s.compiled hc), by
    simpa using s.casts⟩

/-- The rule whose builder is called after some steps of resolving a text, with the texts of the
tree. -/
def callAt? (table : RuleTable) (text : String) (count : Nat) : Option (String × List String) :=
  (Graph.compile table .script).toOption.bind fun g => (g.rule? RuleTable.rootRule).bind fun root =>
    let p : ScriptParser := ⟨.script, g, .standard, root⟩
    (p.tokenize text).toOption.bind fun ts =>
      (p.resolving ts count).call?.map fun (name, t) => (name, t.tokens.map Token.text)

theorem IsScript.exists_call {p : ScriptParser} (h : p.IsScript) {text name : String} {count : Nat}
    {texts : List String} (hc : callAt? .script text count = some (name, texts)) :
    ∃ ts t, p.tokenize text = .ok ts ∧ (p.resolving ts count).call? = some (name, t) ∧
      t.tokens.map Token.text = texts := by
  obtain ⟨tokens, graph, builders, root⟩ := p
  obtain ⟨rfl, hg, rfl, hroot⟩ := h
  simp only at hg hroot
  rw [callAt?, hg] at hc
  simp only [Except.toOption, Option.bind_some, hroot] at hc
  cases hts : tokenize ⟨.script, graph, .standard, root⟩ text with
  | error e => simp [hts] at hc
  | ok ts =>
      simp only [hts, Option.bind_some, Option.map_eq_some_iff] at hc
      obtain ⟨⟨name', t⟩, hcall, he⟩ := hc
      obtain ⟨rfl, rfl⟩ := Prod.mk.inj he
      exact ⟨ts, t, rfl, hcall, rfl⟩

theorem only_frames_refused_fraction : ∃ p ts t, shipped = .ok p ∧
    p.tokenize "A\x7ba \x7bcurve x1.5 2\x7d\x7d" = .ok ts ∧
    (p.resolving ts 115).call? = some ("animated_value", t) ∧
    t.tokens.map Token.text = ["\x7b", "curve", "x1.5", "2", "\x7d"] ∧
    RefusesFrames p.builders "animated_value" t ∧ ∃ a ∈ ts, a.name = "INT" ∧ a.cast.isOk := by
  obtain ⟨p, hp, h⟩ := only_frames_refused shipped (.head _)
  obtain ⟨p', hp', hs⟩ := shipped_isScript
  obtain rfl := Except.ok.inj (hp.symm.trans hp')
  have called : callAt? .script "A\x7ba \x7bcurve x1.5 2\x7d\x7d" 115 =
      some ("animated_value", ["\x7b", "curve", "x1.5", "2", "\x7d"]) := by
    decide +kernel
  obtain ⟨ts, t, hts, hc, htexts⟩ := hs.exists_call called
  obtain ⟨-, refuses, casts⟩ := h _ ts hts
  have whole : ((TokenTable.script.tokenize "A\x7ba \x7bcurve x1.5 2\x7d\x7d").map fun all =>
      (Token.significant all).any (·.name == "INT")).toOption = some true := by
    decide +kernel
  obtain ⟨a, ha, hn⟩ : ∃ a ∈ ts, a.name = "INT" := by
    rw [tokenize, hs.tokens] at hts
    cases hall : TokenTable.script.tokenize "A\x7ba \x7bcurve x1.5 2\x7d\x7d" with
    | error e => simp [hall, Except.map] at hts
    | ok all =>
        obtain rfl : Token.significant all = ts := by simpa [hall, Except.map] using hts
        simpa [hall, Except.map, Except.toOption] using whole
  exact ⟨p, ts, t, hp, hts, hc, htexts, refuses 115 _ t hc, a, ha, hn, casts a ha⟩

end ScriptParser

end NodeScript
