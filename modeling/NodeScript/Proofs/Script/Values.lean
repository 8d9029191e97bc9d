import NodeScript.Proofs.Script.Reading

/-!
# Reading values

The rules for the values of knobs read exactly the well-formed values, and the builders make of a
value what it is: a token, the tokens of channels or the pairs of a curve.
-/

namespace NodeScript

namespace Tree

/-- Trees with the tokens of pieces hold the tokens of all of them. -/
theorem flatMap_tokens {α : Type} {f : α → List Token} {as : List α} {ts : List Tree}
    (h : List.Forall₂ (fun a t => t.tokens = f a) as ts) : ts.flatMap tokens = as.flatMap f := by
  induction h with
  | nil => rfl
  | cons ht _ ih => simp [ht, ih]

end Tree

namespace Script

open Descent (Reads)

/-- The texts of the marks that stand for no word, number or string. -/
def marks : List String :=
  ["\x7b", "\x7d", "(", ")", "[", "]", "$"]

theorem admits_mark : ∀ name ∈ ["FRAME", "FLOAT", "INT", "STRING", "WORD"], ∀ text ∈ marks,
    (TokenTable.script.row? name).any (·.accepts text) = false := by
  decide

section Marks

variable {t : Token} (h : t.text ∈ marks)
include h

theorem isWord_mark : isWord t = false :=
  admits_mark "WORD" (by simp) t.text h

theorem isFloat_mark : isFloat t = false :=
  admits_mark "FLOAT" (by simp) t.text h

theorem isInt_mark : isInt t = false :=
  admits_mark "INT" (by simp) t.text h

theorem isFrame_mark : isFrame t = false :=
  admits_mark "FRAME" (by simp) t.text h

theorem isString_mark : isString t = false :=
  admits_mark "STRING" (by simp) t.text h

theorem isNumber_mark : isNumber t = false := by
  simp [isNumber, isFloat_mark h, isInt_mark h]

theorem isScalar_mark : isScalar t = false := by
  simp [isScalar, isFloat_mark h, isInt_mark h, isString_mark h, isWord_mark h]

end Marks

variable (limit b : Nat)

/-! ## Values -/

theorem reads_keyframe : Reads (read limit (b + 2) "keyframe") limit KeyframeText.tokens
    (fun k _ => k.WellFormed) (fun k t => t.tokens = k.tokens) where
  sound := fun _ h => by
    rw [read_keyframe] at h
    simp only [Descent.sequence_eq_some, Descent.all_cons_eq_some, Descent.all_nil_eq_some,
      Descent.one_eq_some] at h
    obtain ⟨_, ⟨_, _, _, ⟨f, rfl, hf, rfl⟩, ⟨_, _, _, ⟨n, rfl, hn, rfl⟩, ⟨rfl, rfl⟩, rfl⟩, rfl⟩,
      rfl⟩ := h
    exact ⟨⟨f, n⟩, rfl, ⟨hf, hn⟩, by simp [KeyframeText.tokens]⟩
  complete := fun k rest _ ⟨hf, hn⟩ => by
    refine ⟨(Tree.list [.token k.frame, .token k.number]).flatten, ?_, by
      simp [KeyframeText.tokens]⟩
    simp [read_keyframe, Descent.sequence, Descent.all, Descent.one, KeyframeText.tokens, hf, hn]

theorem keyframe_tokens_ne_nil (k : KeyframeText) : k.tokens ≠ [] :=
  List.cons_ne_nil _ _

/-- The keyframes of a curve end before its closing brace. -/
theorem read_keyframe_mark {t : Token} (h : t.text ∈ marks) (rest : List Token) :
    read limit (b + 2) "keyframe" (t :: rest) = none := by
  simp [read_keyframe, Descent.sequence, Descent.all, Descent.one, isFrame_mark h]

theorem reads_curve : Reads (read limit (b + 3) "curve") limit CurveText.tokens
    (fun c _ => c.WellFormed) (fun c t => t.tokens = c.tokens) where
  sound := fun hl h => by
    rw [read_curve] at h
    simp only [Descent.sequence_eq_some, Descent.all_cons_eq_some, Descent.all_nil_eq_some,
      Descent.one_eq_some] at h
    obtain ⟨_, ⟨_, _, _, ⟨o, rfl, ho, rfl⟩, ⟨_, _, _, ⟨w, rfl, hw, rfl⟩,
      ⟨t, _, _, ht, ⟨_, _, _, ⟨c, rfl, hc, rfl⟩, ⟨rfl, rfl⟩, rfl⟩, rfl⟩, rfl⟩, rfl⟩, rfl⟩ := h
    simp only [List.length_cons] at hl
    obtain ⟨ks, rfl, ⟨hne, hks, _⟩, trees, hts, rfl⟩ :=
      ((reads_keyframe limit b).oneOrMore fun _ => keyframe_tokens_ne_nil _).sound (by omega) ht
    refine ⟨⟨o, w, ks, c⟩, by simp [CurveText.tokens], ⟨eq_of_beq ho, eq_of_beq hw,
      Descent.inTurn_iff_forall.1 hks, hne, eq_of_beq hc⟩, ?_⟩
    simp [CurveText.tokens, Tree.flatMap_tokens hts]
  complete := fun c rest hl hw => by
    obtain ⟨o, w, ks, cl⟩ := c
    obtain ⟨ho, hw, hks, hne, hc⟩ := hw
    simp only at ho hw hks hne hc
    simp only [CurveText.tokens, List.cons_append, List.append_assoc, List.nil_append,
      List.length_cons] at hl ⊢
    obtain ⟨t, ht, trees, hts, rfl⟩ :=
      ((reads_keyframe limit b).oneOrMore fun _ => keyframe_tokens_ne_nil _).complete
        ks (cl :: rest) (by omega) ⟨hne, Descent.inTurn_iff_forall.2 hks,
          read_keyframe_mark limit b (by simp [hc, marks]) rest⟩
    refine ⟨(Tree.list [.token o, .token w, (Tree.list trees).flatten, .token cl]).flatten, ?_, ?_⟩
    · simp [read_curve, Descent.sequence, Descent.all, Descent.one, isText, ho, hw, hc, ht]
    · simp [Tree.flatMap_tokens hts]

theorem text_notMem_marks {t : Token} (h : isScalar t ∨ isFrame t ∨ isNumber t) :
    t.text ∉ marks := by
  intro hm
  simp [isScalar_mark hm, isFrame_mark hm, isNumber_mark hm] at h

theorem keyframe_notMem_marks {k : KeyframeText} (h : k.WellFormed) :
    ∀ t ∈ k.tokens, t.text ∉ marks := by
  simp only [KeyframeText.tokens, List.mem_cons, List.not_mem_nil, or_false, forall_eq_or_imp,
    forall_eq]
  exact ⟨text_notMem_marks (.inr (.inl h.frame)), text_notMem_marks (.inr (.inr h.number))⟩

theorem pairUp?_keyframes (ks : List KeyframeText) :
    Builder.pairUp? (ks.flatMap KeyframeText.tokens) =
      some (ks.map fun k => (k.frame, k.number)) := by
  induction ks with
  | nil => rfl
  | cons k ks ih => simp [KeyframeText.tokens, Builder.pairUp?, ih]

theorem checkFrames_eq_ok_iff (pairs : List (Token × Token)) :
    Builder.checkFrames pairs = .ok () ↔ ∀ p ∈ pairs, p.1.castFrame.isOk := by
  induction pairs with
  | nil => simp [Builder.checkFrames]
  | cons p pairs ih =>
      obtain ⟨frame, value⟩ := p
      cases h : frame.castFrame <;>
        simp [Builder.checkFrames, h, ih, Except.isOk, Except.toBool, bind, Except.bind]

theorem framesCast_iff (c : CurveText) :
    c.FramesCast ↔ Builder.checkFrames c.pairs = .ok () := by
  simp [CurveText.FramesCast, CurveText.pairs, checkFrames_eq_ok_iff]

/-- Without the braces, a curve is its word and the keyframes. -/
theorem filter_curve {c : CurveText} (h : c.WellFormed) :
    (c.tokens.filter fun t => t.text != "\x7b" && t.text != "\x7d") =
      c.word :: c.keyframes.flatMap KeyframeText.tokens := by
  have hk : ∀ t ∈ c.keyframes.flatMap KeyframeText.tokens,
      (t.text != "\x7b" && t.text != "\x7d") = true := by
    intro t ht
    obtain ⟨k, hk, ht⟩ := List.mem_flatMap.1 ht
    have := keyframe_notMem_marks (h.keyframes k hk) t ht
    simp only [marks, List.mem_cons, not_or] at this
    simp [this.1, this.2.1]
  simp [CurveText.tokens, h.opening, h.closing, h.word, List.filter_eq_self.2 hk]

/-- The builder takes a curve, also one in more braces, when its frames can be read. -/
theorem buildAnimatedValue_eq_ok {c : CurveText} (h : c.WellFormed) {t built : Tree}
    (ht : (t.tokens.filter fun t => t.text != "\x7b" && t.text != "\x7d") =
      c.word :: c.keyframes.flatMap KeyframeText.tokens) :
    Builder.buildAnimatedValue t = .ok built ↔ c.FramesCast ∧ built = .curve c.pairs := by
  obtain ⟨k, ks, hk⟩ := List.exists_cons_of_ne_nil h.keyframes_ne
  have hp : Builder.pairUp? (c.keyframes.flatMap KeyframeText.tokens) = some c.pairs :=
    pairUp?_keyframes _
  have hc : ∃ p ps, c.pairs = p :: ps := by simp [CurveText.pairs, hk]
  obtain ⟨p, ps, hc⟩ := hc
  rw [framesCast_iff]
  simp only [Builder.buildAnimatedValue, ht, Builder.withoutCurveWord, h.word, if_true, hp, hc]
  cases Builder.checkFrames (p :: ps) <;> simp [eq_comm]

/-- A curve, in one pair of braces or in two. -/
def ValueText.IsAnimated : ValueText → Prop
  | .curve c => c.WellFormed ∧ c.FramesCast
  | .wrapped opening c closing =>
      opening.text = "\x7b" ∧ c.WellFormed ∧ c.FramesCast ∧ closing.text = "\x7d"
  | _ => False

theorem ValueText.IsAnimated.cases {v : ValueText} (h : v.IsAnimated) :
    (∃ c : CurveText, v = .curve c ∧ c.WellFormed ∧ c.FramesCast) ∨
      ∃ (o : Token) (c : CurveText) (cl : Token), v = .wrapped o c cl ∧ o.text = "\x7b" ∧
        c.WellFormed ∧ c.FramesCast ∧ cl.text = "\x7d" := by
  cases v with
  | single => exact h.elim
  | run => exact h.elim
  | curve c => exact .inl ⟨c, rfl, h⟩
  | wrapped o c cl => exact .inr ⟨o, c, cl, rfl, h⟩

theorem ValueText.IsAnimated.wellFormed {v : ValueText} (h : v.IsAnimated) : v.WellFormed := by
  cases v with
  | single => exact h.elim
  | run => exact h.elim
  | curve => exact h
  | wrapped => exact h

/-- What the builders make of a value. -/
def ValueText.tree : ValueText → Tree
  | .single t => .token t
  | .run _ items _ => .channels items
  | .curve c => .curve c.pairs
  | .wrapped _ c _ => .curve c.pairs

end Script

namespace Descent

theorem rule_cons_eq_some {builders : BuilderTable} {name : String} {f : Descent}
    {fs : List Descent} {ts rest : List Token} {t : Tree} :
    rule builders name (f :: fs) ts = some (t, rest) ↔
      (∃ t', f ts = some (t', rest) ∧ builders.build name t' = .ok t) ∨
      ((∀ t' rest', f ts = some (t', rest') → ∀ built, builders.build name t' ≠ .ok built) ∧
        rule builders name fs ts = some (t, rest)) := by
  simp only [rule]
  cases f ts with
  | none => simp
  | some taken =>
      obtain ⟨t', rest'⟩ := taken
      cases hb : builders.build name t' with
      | ok built => simp [hb, and_comm]
      | error e => simp [hb]

theorem rule_nil {builders : BuilderTable} {name : String} {ts : List Token} :
    rule builders name [] ts = none :=
  rfl

end Descent

namespace Script

open Descent (Reads)

variable (limit b : Nat)

theorem build_animatedValue (t : Tree) :
    BuilderTable.standard.build "animated_value" t = Builder.buildAnimatedValue t :=
  rfl

theorem read_curve_of_ne {t : Token} (h : t.text ≠ "\x7b") (rest : List Token) :
    read limit (b + 3) "curve" (t :: rest) = none := by
  simp [read_curve, Descent.sequence, Descent.all, Descent.one, isText, h]

theorem reads_animatedValue : Reads (read limit (b + 4) "animated_value") limit ValueText.tokens
    (fun v _ => v.IsAnimated) (fun v t => t = v.tree) where
  sound := fun hl h => by
    rw [read_animatedValue, Descent.rule_cons_eq_some, Descent.rule_cons_eq_some] at h
    simp only [Descent.sequence_eq_some, Descent.all_cons_eq_some, Descent.all_nil_eq_some,
      Descent.one_eq_some, Descent.rule_nil, build_animatedValue] at h
    rcases h with ⟨_, ⟨_, ⟨_, _, _, ⟨o, rfl, ho, rfl⟩, ⟨t, _, _, ht, ⟨_, _, _, ⟨cl, rfl, hcl, rfl⟩,
      ⟨rfl, rfl⟩, rfl⟩, rfl⟩, rfl⟩, rfl⟩, hb⟩ |
      ⟨_, ⟨_, ⟨_, ⟨t, _, _, ht, ⟨rfl, rfl⟩, rfl⟩, rfl⟩, hb⟩ | ⟨_, h⟩⟩
    · simp only [List.length_cons] at hl
      obtain ⟨c, rfl, hc, htc⟩ := (reads_curve limit b).sound (by omega) ht
      have ho := eq_of_beq ho
      have hcl := eq_of_beq hcl
      rw [buildAnimatedValue_eq_ok hc (by simp [htc, ho, hcl, filter_curve hc])] at hb
      exact ⟨.wrapped o c cl, by simp [ValueText.tokens], ⟨ho, hc, hb.1, hcl⟩, hb.2⟩
    · obtain ⟨c, rfl, hc, htc⟩ := (reads_curve limit b).sound hl ht
      rw [buildAnimatedValue_eq_ok hc (by simp [htc, filter_curve hc])] at hb
      exact ⟨.curve c, rfl, ⟨hc, hb.1⟩, hb.2⟩
    · cases h
  complete := fun v rest hl hv => by
    cases v with
    | single t => exact hv.elim
    | run o items cl => exact hv.elim
    | curve c =>
        obtain ⟨hc, hf⟩ := hv
        obtain ⟨t, ht, htc⟩ := (reads_curve limit b).complete c rest hl hc
        refine ⟨_, ?_, rfl⟩
        rw [read_animatedValue, Descent.rule_cons_eq_some, Descent.rule_cons_eq_some]
        refine .inr ⟨fun t' rest' h => ?_, .inl ⟨t.flatten, ?_, ?_⟩⟩
        · -- the alternative before wants a curve where this one has its word
          have hw : c.word.text ≠ "\x7b" := by simp [hc.word]
          simp [Descent.sequence, Descent.all, Descent.one, ValueText.tokens, CurveText.tokens,
            isText, hc.opening, read_curve_of_ne limit b hw] at h
        · simp [Descent.sequence, Descent.all, ValueText.tokens, ht, Tree.flatten]
        · exact (buildAnimatedValue_eq_ok hc (by simp [htc, filter_curve hc])).2 ⟨hf, rfl⟩
    | wrapped o c cl =>
        obtain ⟨ho, hc, hf, hcl⟩ := hv
        simp only [ValueText.tokens, List.cons_append, List.append_assoc, List.nil_append,
          List.length_cons] at hl ⊢
        obtain ⟨t, ht, htc⟩ := (reads_curve limit b).complete c (cl :: rest) (by omega) hc
        refine ⟨_, ?_, rfl⟩
        rw [read_animatedValue, Descent.rule_cons_eq_some]
        refine .inl ⟨(Tree.list [.token o, t, .token cl]).flatten, ?_, ?_⟩
        · simp [Descent.sequence, Descent.all, Descent.one, isText, ho, hcl, ht]
        · exact (buildAnimatedValue_eq_ok hc (by simp [htc, ho, hcl, filter_curve hc])).2 ⟨hf, rfl⟩

/-- Scalars in delimiters that belong together, a curve or not. -/
def ValueText.IsRun : ValueText → Prop
  | .run opening items closing => Builder.areDelimiters opening.text closing.text ∧ items ≠ [] ∧
      ∀ t ∈ items, isScalar t
  | _ => False

theorem ValueText.IsRun.exists {v : ValueText} (h : v.IsRun) : ∃ o items cl,
    v = .run o items cl ∧ Builder.areDelimiters o.text cl.text ∧ items ≠ [] ∧
      ∀ t ∈ items, isScalar t := by
  cases v with
  | run o items cl => exact ⟨o, items, cl, rfl, h⟩
  | _ => exact h.elim

theorem build_multiValue (t : Tree) :
    BuilderTable.standard.build "multi_value" t = Builder.buildMultiValue t :=
  rfl

theorem withoutDelimiters_run {o cl : Token} (h : Builder.areDelimiters o.text cl.text)
    {items : List Token} (hne : items ≠ []) :
    Builder.withoutDelimiters (o :: items ++ [cl]) = items := by
  obtain ⟨item, items, rfl⟩ := List.exists_cons_of_ne_nil hne
  have hd : ∀ h', (item :: (items ++ [cl])).getLast h' = cl := by simp [List.getLast_cons]
  simp only [List.cons_append, Builder.withoutDelimiters, hd, h, if_true]
  rw [← List.cons_append, List.dropLast_concat]

theorem buildMultiValue_eq_ok {o cl : Token} (h : Builder.areDelimiters o.text cl.text)
    {items : List Token} (hne : items ≠ []) {t built : Tree} (ht : t.tokens = o :: items ++ [cl]) :
    Builder.buildMultiValue t = .ok built ↔ built = .channels items := by
  obtain ⟨item, items, rfl⟩ := List.exists_cons_of_ne_nil hne
  rw [Builder.buildMultiValue, ht, withoutDelimiters_run h hne]
  simp [eq_comm]

/-- Reading scalars between two texts, of which the second is no scalar. -/
theorem reads_enclosed (first last : String) (hm : last ∈ marks) :
    Reads (.sequence [.one (isText first), .oneOrMore limit (.one isScalar), .one (isText last)])
      limit ValueText.tokens
      (fun v _ => ∃ o items cl, v = .run o items cl ∧ o.text = first ∧ cl.text = last ∧
        items ≠ [] ∧ ∀ t ∈ items, isScalar t)
      (fun v t => t.tokens = v.tokens) where
  sound := fun hl h => by
    simp only [Descent.sequence_eq_some, Descent.all_cons_eq_some, Descent.all_nil_eq_some,
      Descent.one_eq_some] at h
    obtain ⟨_, ⟨_, _, _, ⟨o, rfl, ho, rfl⟩, ⟨t, _, _, ht, ⟨_, _, _, ⟨cl, rfl, hcl, rfl⟩,
      ⟨rfl, rfl⟩, rfl⟩, rfl⟩, rfl⟩, rfl⟩ := h
    simp only [List.length_cons] at hl
    obtain ⟨as, rfl, ⟨hne, hi, _⟩, trees, hts, rfl⟩ :=
      ((Descent.reads_one isScalar limit).oneOrMore fun _ => List.cons_ne_nil _ _).sound
        (by omega) ht
    have htokens : trees.flatMap Tree.tokens = as := by
      rw [Tree.flatMap_tokens (hts.imp fun a t h => by rw [h, Tree.tokens_token])]
      simp
    exact ⟨.run o as cl, by simp [ValueText.tokens], ⟨o, as, cl, rfl, eq_of_beq ho, eq_of_beq hcl,
      hne, Descent.inTurn_iff_forall.1 hi⟩, by simp [ValueText.tokens, htokens]⟩
  complete := fun v rest hl hv => by
    obtain ⟨o, items, cl, rfl, ho, hcl, hne, hi⟩ := hv
    simp only [ValueText.tokens, List.cons_append, List.append_assoc, List.nil_append,
      List.length_cons] at hl ⊢
    obtain ⟨t, ht, trees, hts, rfl⟩ :=
      ((Descent.reads_one isScalar limit).oneOrMore fun _ => List.cons_ne_nil _ _).complete
        items (cl :: rest) (by simpa using Nat.le_of_succ_le hl)
        ⟨hne, Descent.inTurn_iff_forall.2 hi, by
          simp [Descent.one, isScalar_mark (hcl ▸ hm : cl.text ∈ marks)]⟩
    have htokens : trees.flatMap Tree.tokens = items := by
      rw [Tree.flatMap_tokens (hts.imp fun a t h => by rw [h, Tree.tokens_token])]
      simp
    rw [List.flatMap_singleton'] at ht
    refine ⟨(Tree.list [.token o, (Tree.list trees).flatten, .token cl]).flatten, ?_, ?_⟩
    · simp [Descent.sequence, Descent.all, Descent.one, isText, ho, hcl, ht]
    · simp [htokens]

theorem mark_of_areDelimiters {o cl : String} (h : Builder.areDelimiters o cl) :
    o ∈ marks ∧ cl ∈ marks := by
  simp only [Builder.areDelimiters, Bool.or_eq_true, Bool.and_eq_true, beq_iff_eq] at h
  rcases h with ⟨rfl, rfl⟩ | ⟨rfl, rfl⟩ <;> simp [marks]

theorem reads_multiValue : Reads (read limit (b + 2) "multi_value") limit ValueText.tokens
    (fun v _ => v.IsRun) (fun v t => t = v.tree) where
  sound := fun {ts t rest} hl h => by
    have run {first last : String} {t' : Tree} (hd : Builder.areDelimiters first last)
        (h : Descent.sequence [.one (isText first), .oneOrMore limit (.one isScalar),
          .one (isText last)] ts = some (t', rest))
        (hb : BuilderTable.standard.build "multi_value" t' = .ok t) :
        ∃ v : ValueText, ts = v.tokens ++ rest ∧ v.IsRun ∧ t = v.tree := by
      obtain ⟨_, rfl, ⟨o, items, cl, rfl, rfl, rfl, hne, hi⟩, ht⟩ :=
        (reads_enclosed limit first last (mark_of_areDelimiters hd).2).sound hl h
      rw [build_multiValue, buildMultiValue_eq_ok hd hne ht] at hb
      exact ⟨.run o items cl, rfl, ⟨hd, hne, hi⟩, hb⟩
    rw [read_multiValue, Descent.rule_cons_eq_some, Descent.rule_cons_eq_some] at h
    rcases h with ⟨t', h, hb⟩ | ⟨_, ⟨t', h, hb⟩ | ⟨_, h⟩⟩
    · exact run (by decide) h hb
    · exact run (by decide) h hb
    · cases h
  complete := fun v rest hl hv => by
    obtain ⟨o, items, cl, rfl, hd, hne, hi⟩ := hv.exists
    obtain ⟨t, ht, htt⟩ := (reads_enclosed limit o.text cl.text
      (mark_of_areDelimiters hd).2).complete (.run o items cl) rest hl
      ⟨o, items, cl, rfl, rfl, rfl, hne, hi⟩
    have hb := (buildMultiValue_eq_ok hd hne htt).2 rfl
    refine ⟨_, ?_, rfl⟩
    rw [read_multiValue, Descent.rule_cons_eq_some, Descent.rule_cons_eq_some]
    have hd' := hd
    simp only [Builder.areDelimiters, Bool.or_eq_true, Bool.and_eq_true, beq_iff_eq] at hd'
    rcases hd' with ⟨ho, hcl⟩ | ⟨ho, hcl⟩
    · exact .inl ⟨t, by rw [← ho, ← hcl, ht], hb⟩
    · refine .inr ⟨fun t' rest' h => ?_, .inl ⟨t, by rw [← ho, ← hcl, ht], hb⟩⟩
      simp [Descent.sequence, Descent.all, Descent.one, isText, ValueText.tokens, ho] at h

/-- Two lists that go on with a token without a property after tokens with it. -/
theorem append_cons_inj {p : Token → Prop} {as bs rest rest' : List Token} {c d : Token}
    (ha : ∀ t ∈ as, p t) (hb : ∀ t ∈ bs, p t) (hc : ¬p c) (hd : ¬p d)
    (h : as ++ c :: rest = bs ++ d :: rest') : as = bs ∧ c = d ∧ rest = rest' := by
  induction as generalizing bs with
  | nil =>
      cases bs with
      | nil => simpa using h
      | cons b bs =>
          obtain ⟨rfl, _⟩ := List.cons.inj h
          exact absurd (hb c (by simp)) hc
  | cons a as ih =>
      cases bs with
      | nil =>
          obtain ⟨rfl, _⟩ := List.cons.inj h
          exact absurd (ha a (by simp)) hd
      | cons b bs =>
          obtain ⟨rfl, h'⟩ := List.cons.inj h
          obtain ⟨rfl, hr⟩ := ih (List.forall_mem_cons.1 ha).2 (List.forall_mem_cons.1 hb).2 h'
          exact ⟨rfl, hr⟩

theorem curve_inner_notMem_marks {c : CurveText} (h : c.WellFormed) :
    ∀ t ∈ c.word :: c.keyframes.flatMap KeyframeText.tokens, t.text ∉ marks := by
  intro t ht
  rcases List.mem_cons.1 ht with rfl | ht
  · simp [h.word, marks]
  · obtain ⟨k, hk, ht⟩ := List.mem_flatMap.1 ht
    exact keyframe_notMem_marks (h.keyframes k hk) t ht

/-- A run that begins like a curve is one. -/
theorem isCurve_of_append {o cl : Token} {items rest rest' : List Token} {c : CurveText}
    (hd : Builder.areDelimiters o.text cl.text) (hi : ∀ t ∈ items, isScalar t)
    (hc : c.WellFormed) (hf : c.FramesCast)
    (h : (o :: items ++ [cl]) ++ rest = c.tokens ++ rest') :
    ValueText.IsCurve (o :: items ++ [cl]) := by
  simp only [CurveText.tokens, List.cons_append, List.append_assoc, List.nil_append,
    List.cons.injEq] at h
  obtain ⟨rfl, h⟩ := h
  rw [← List.cons_append] at h
  obtain ⟨rfl, rfl, -⟩ := append_cons_inj (p := fun t => t.text ∉ marks)
    (fun t ht => text_notMem_marks (.inl (hi t ht))) (curve_inner_notMem_marks hc)
    (by simp [(mark_of_areDelimiters hd).2]) (by simp [hc.closing, marks]) h
  exact ⟨c, hc, hf, by simp [CurveText.tokens]⟩

theorem read_animatedValue_run {o cl : Token} {items : List Token} (rest : List Token)
    (hl : ((o :: items ++ [cl]) ++ rest).length ≤ limit)
    (hd : Builder.areDelimiters o.text cl.text) (hne : items ≠ []) (hi : ∀ t ∈ items, isScalar t)
    (hc : ¬ValueText.IsCurve (o :: items ++ [cl])) :
    read limit (b + 4) "animated_value" ((o :: items ++ [cl]) ++ rest) = none := by
  refine (reads_animatedValue limit b).eq_none hl fun v rest' h hv => ?_
  rcases hv.cases with ⟨c, rfl, hw, hf⟩ | ⟨o', c, cl', rfl, _, hw, _, _⟩
  · exact hc (isCurve_of_append hd hi hw hf h)
  · obtain ⟨item, items, rfl⟩ := List.exists_cons_of_ne_nil hne
    simp only [ValueText.tokens, CurveText.tokens, List.cons_append, List.cons.injEq] at h
    have := text_notMem_marks (.inl (hi item (by simp)))
    simp [h.2.1, hw.opening, marks] at this

/-- Where the rule for curves reads nothing, no curve begins. -/
theorem not_isCurve_of_read {ts rest : List Token} (hl : (ts ++ rest).length ≤ limit)
    (h : read limit (b + 4) "animated_value" (ts ++ rest) = none) : ¬ValueText.IsCurve ts := by
  rintro ⟨c, hw, hf, rfl⟩
  obtain ⟨t, ht, -⟩ := (reads_animatedValue limit b).complete (.curve c) rest hl ⟨hw, hf⟩
  rw [ValueText.tokens, h] at ht
  cases ht

theorem read_animatedValue_scalar {t : Token} (h : isScalar t) (rest : List Token)
    (hl : (t :: rest).length ≤ limit) :
    read limit (b + 4) "animated_value" (t :: rest) = none := by
  have ht := text_notMem_marks (.inl h)
  refine (reads_animatedValue limit b).eq_none hl fun v rest' hv hw => ?_
  rcases hw.cases with ⟨c, rfl, hw, _⟩ | ⟨o', c, cl', rfl, ho, _⟩
  · simp only [ValueText.tokens, CurveText.tokens, List.cons_append, List.cons.injEq] at hv
    simp [hv.1, hw.opening, marks] at ht
  · simp only [ValueText.tokens, List.cons_append, List.cons.injEq] at hv
    simp [hv.1, ho, marks] at ht

theorem read_multiValue_scalar {t : Token} (h : isScalar t) (rest : List Token)
    (hl : (t :: rest).length ≤ limit) : read limit (b + 2) "multi_value" (t :: rest) = none := by
  have ht := text_notMem_marks (.inl h)
  refine (reads_multiValue limit b).eq_none hl fun v rest' hv hw => ?_
  obtain ⟨o, items, cl, rfl, hd, _⟩ := hw.exists
  simp only [ValueText.tokens, List.cons_append, List.cons.injEq] at hv
  exact ht (hv.1 ▸ (mark_of_areDelimiters hd).1)

theorem sequence_singleton (f : Descent) (ts : List Token) :
    Descent.sequence [f] ts = (f ts).map fun (t, rest) => (t.flatten, rest) := by
  match h : f ts with
  | none => simp [Descent.sequence, Descent.all, h]
  | some (t, rest) => simp [Descent.sequence, Descent.all, h, Tree.flatten]

theorem ValueText.flatten_tree (v : ValueText) : v.tree.flatten = v.tree := by
  cases v <;> rfl

theorem reads_knobValue : Reads (read limit (b + 5) "knob_value") limit ValueText.tokens
    (fun v _ => v.WellFormed) (fun v t => t = v.tree) where
  sound := fun {ts t rest} hl h => by
    rw [read_knobValue] at h
    simp only [List.findSome?_cons, List.findSome?_nil, sequence_singleton] at h
    match ha : read limit (b + 4) "animated_value" ts with
    | some (t', rest') =>
        obtain ⟨v, rfl, hv, rfl⟩ := (reads_animatedValue limit b).sound hl ha
        obtain ⟨rfl, rfl⟩ : v.tree.flatten = t ∧ rest' = rest := by simpa [ha] using h
        exact ⟨v, rfl, hv.wellFormed, v.flatten_tree⟩
    | none =>
        match hm : read limit (b + 4) "multi_value" ts with
        | some (t', rest') =>
            obtain ⟨v, rfl, hv, rfl⟩ := (reads_multiValue limit (b + 2)).sound hl hm
            obtain ⟨rfl, rfl⟩ : v.tree.flatten = t ∧ rest' = rest := by simpa [ha, hm] using h
            obtain ⟨o, items, cl, rfl, hd, hne, hi⟩ := hv.exists
            exact ⟨.run o items cl, rfl, ⟨hd, hne, hi, not_isCurve_of_read limit b hl ha⟩,
              ValueText.flatten_tree _⟩
        | none =>
            match hs : Descent.one isScalar ts with
            | none => simp [ha, hm, hs] at h
            | some (t', rest') =>
                obtain ⟨a, rfl, hsc, rfl⟩ := Descent.one_eq_some.1 hs
                obtain ⟨rfl, rfl⟩ : Tree.token a = t ∧ rest' = rest := by
                  simpa [ha, hm, hs, Tree.flatten] using h
                exact ⟨.single a, rfl, hsc, rfl⟩
  complete := fun v rest hl hv => by
    refine ⟨_, ?_, rfl⟩
    rw [read_knobValue]
    simp only [List.findSome?_cons, List.findSome?_nil, sequence_singleton]
    cases v with
    | single a =>
        have ha := read_animatedValue_scalar limit b hv rest hl
        have hm := read_multiValue_scalar limit (b + 2) hv rest hl
        have hs : isScalar a = true := hv
        simp [ValueText.tokens, ha, hm, Descent.one, hs, Tree.flatten, ValueText.tree]
    | run o items cl =>
        obtain ⟨hd, hne, hi, hc⟩ := hv
        have ha := read_animatedValue_run limit b rest hl hd hne hi hc
        obtain ⟨t, hm, rfl⟩ := (reads_multiValue limit (b + 2)).complete (.run o items cl) rest hl
          ⟨hd, hne, hi⟩
        change read limit (b + 4) "animated_value"
          ((ValueText.run o items cl).tokens ++ rest) = none at ha
        change read limit (b + 4) "multi_value" _ = _ at hm
        simp only [ha, hm, Option.map_none, Option.map_some, ValueText.flatten_tree]
    | curve c =>
        obtain ⟨t, ha, rfl⟩ := (reads_animatedValue limit b).complete (.curve c) rest hl hv
        simp [ha, ValueText.flatten_tree]
    | wrapped o c cl =>
        obtain ⟨t, ha, rfl⟩ := (reads_animatedValue limit b).complete (.wrapped o c cl) rest hl hv
        simp [ha, ValueText.flatten_tree]

end Script

end NodeScript
