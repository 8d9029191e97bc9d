import NodeScript.Proofs.Node.Channels
import NodeScript.Proofs.Script.Parsing
import NodeScript.Proofs.Script.Writing

/-!
# Reading written scripts back

What a written script is read back as. Scalars stay as they are, but for numbers that are not
finite; a value of several channels stays one unless its scalars can be read as a curve.
-/

namespace NodeScript

open TokenTable Script

/-! ## What is read back -/

/-- The keyframes that scalars in turn are read back as. -/
def keyframesOf? : List Scalar → Option (List Keyframe)
  | [] => some []
  | [_] => none
  | frame :: value :: rest =>
    if value.isNumber then
      frame.frame?.bind fun i => (keyframesOf? rest).map (⟨i, value⟩ :: ·)
    else none

/-- The curve that scalars in braces are read back as, when they begin with its word. -/
def curveOf? : List Scalar → Option Curve
  | .text "curve" :: rest => ((keyframesOf? rest).filter (!·.isEmpty)).map Curve.mk
  | _ => none

/-- The value that scalars in braces are read back as. -/
def bracedBack? (vs : List Scalar) : Option Value :=
  (vs.mapM Scalar.readBack?).map fun read =>
    match curveOf? vs with
    | some c => .animated c
    | none => .multi (.ofValues read)

def Value.readBack? : Value → Option Value
  | .scalar s => s.readBack?.map .scalar
  | .multi m => bracedBack? m.values
  | .animated c => bracedBack? c.items
  | .block _ => none

def Attribute.readBack? (a : Attribute) : Option Attribute :=
  a.value.readBack?.map (⟨a.name, ·⟩)

/-- The node that is read back for a node that was written, if any is. -/
def Node.readBack? (n : Node) : Option Node :=
  (n.attributes.mapM Attribute.readBack?).map fun as => ⟨n.className, as, n.binding⟩

/-! ## Values -/

/-- The tokens of scalars, each a token that the scalar is written as. -/
abbrev Written (vs : List Scalar) (ts : List Token) : Prop :=
  List.Forall₂ (fun v t => v.kind? = some t.kind) vs ts

variable {vs : List Scalar} {ts : List Token}

theorem written_iff : vs.mapM Scalar.kind? = some (ts.map Token.kind) ↔ Written vs ts := by
  rw [mapM_eq_some_iff, List.forall₂_map_right_iff]

theorem Written.isScalar (h : Written vs ts) : ∀ t ∈ ts, isScalar t := by
  induction h with
  | nil => simp
  | cons hk _ ih => simpa [Scalar.isScalar_of_kind? hk] using ih

/-- The tokens of scalars are cast to what reads back for the scalars. -/
theorem Written.castAll (h : Written vs ts) :
    ∃ vs', vs.mapM Scalar.readBack? = some vs' ∧ Builder.castAll ts = .ok vs' := by
  induction h with
  | nil => exact ⟨[], rfl, rfl⟩
  | cons hk _ ih =>
      obtain ⟨s', hs, hc⟩ := Scalar.cast_of_kind? hk
      obtain ⟨vs', hvs, hcs⟩ := ih
      refine ⟨s' :: vs', by rw [mapM_cons_eq, hs, hvs]; rfl, ?_⟩
      rw [Builder.castAll, hc, hcs]
      rfl

theorem readBack?_of_isNumber {s : Scalar} (h : s.isNumber) : s.readBack? = some s := by
  match s with
  | .int _ => rfl
  | .float (.finite ..) => rfl

/-- The frames and numbers of keyframes. -/
def pairsOf (ks : List KeyframeText) : List (Token × Token) :=
  ks.map fun k => (k.frame, k.number)

theorem castPairs_cons_eq_ok {frame number : Token} {pairs : List (Token × Token)}
    {ks : List Keyframe} : Builder.castPairs ((frame, number) :: pairs) = .ok ks ↔
      ∃ i s ks', frame.castFrame = .ok i ∧ number.cast = .ok s ∧
        Builder.castPairs pairs = .ok ks' ∧ ks = ⟨i, s⟩ :: ks' := by
  cases hf : frame.castFrame <;> cases hn : number.cast <;> cases hp : Builder.castPairs pairs <;>
    simp [Builder.castPairs, hf, hn, hp, bind, Except.bind, eq_comm]

theorem castFrame_isOk {ks : List KeyframeText} {kfs : List Keyframe}
    (h : Builder.castPairs (pairsOf ks) = .ok kfs) : ∀ k ∈ ks, k.frame.castFrame.isOk := by
  induction ks generalizing kfs with
  | nil => simp
  | cons k ks ih =>
      obtain ⟨i, s, ks', hf, -, hp, -⟩ := castPairs_cons_eq_ok.1 h
      simpa [hf, Except.isOk, Except.toBool] using ih hp

/-- Two tokens and more are keyframes when the first two are one and the others are keyframes. -/
theorem eq_flatMap_keyframes_iff {f n : Token} {ts : List Token} {ks : List KeyframeText} :
    f :: n :: ts = ks.flatMap KeyframeText.tokens ↔
      ∃ ks', ks = ⟨f, n⟩ :: ks' ∧ ts = ks'.flatMap KeyframeText.tokens := by
  constructor
  · intro h
    cases ks with
    | nil => cases h
    | cons k ks =>
        simp only [List.flatMap_cons, KeyframeText.tokens, List.cons_append, List.nil_append,
          List.cons.injEq] at h
        obtain ⟨rfl, rfl, rfl⟩ := h
        exact ⟨ks, rfl, rfl⟩
  · rintro ⟨ks, rfl, rfl⟩
    rfl

/-- Scalars are read back as keyframes when their tokens are frames and numbers in turn. -/
theorem keyframesOf?_eq_some_iff {vs : List Scalar} {ts : List Token} (h : Written vs ts)
    (kfs : List Keyframe) :
    keyframesOf? vs = some kfs ↔ ∃ ks : List KeyframeText, ts = ks.flatMap KeyframeText.tokens ∧
      (∀ k ∈ ks, k.WellFormed) ∧ Builder.castPairs (pairsOf ks) = .ok kfs := by
  -- two scalars at a time, as the keyframes are read
  induction vs using keyframesOf?.induct generalizing ts kfs with
  | case1 =>
      obtain rfl := List.forall₂_nil_left_iff.1 h
      constructor
      · rintro h
        exact ⟨[], rfl, by simp, by rw [← Option.some.inj h]; rfl⟩
      · rintro ⟨ks, ht, -, hc⟩
        cases ks with
        | nil => rw [← Except.ok.inj hc]; rfl
        | cons => simp [KeyframeText.tokens] at ht
  | case2 =>
      obtain ⟨f, _, hf, hnil, rfl⟩ := List.forall₂_cons_left_iff.1 h
      obtain rfl := List.forall₂_nil_left_iff.1 hnil
      refine ⟨fun h => (by cases h), ?_⟩
      rintro ⟨ks, ht, -, -⟩
      cases ks <;> simp [KeyframeText.tokens] at ht
  | case3 frame value vs hnumber ih =>
      obtain ⟨f, _, hf, htail, rfl⟩ := List.forall₂_cons_left_iff.1 h
      obtain ⟨n, ts, hn, hrest, rfl⟩ := List.forall₂_cons_left_iff.1 htail
      obtain ⟨value', hv, hc⟩ := Scalar.cast_of_kind? hn
      obtain rfl : value = value' :=
        Option.some.inj ((readBack?_of_isNumber hnumber).symm.trans hv)
      rw [keyframesOf?, if_pos hnumber]
      simp only [Option.bind_eq_some_iff, Option.map_eq_some_iff, ih hrest,
        Scalar.frame?_eq_some_iff hf]
      constructor
      · rintro ⟨i, ⟨hframe, hi⟩, kfs', ⟨ks, rfl, hks, hp⟩, rfl⟩
        refine ⟨⟨f, n⟩ :: ks, rfl, List.forall_mem_cons.2
          ⟨⟨hframe, (Scalar.isNumber_iff hn).2 hnumber⟩, hks⟩, ?_⟩
        exact castPairs_cons_eq_ok.2 ⟨i, value, kfs', hi, hc, hp, rfl⟩
      · rintro ⟨_, ht, hks, hp⟩
        obtain ⟨ks, rfl, rfl⟩ := eq_flatMap_keyframes_iff.1 ht
        obtain ⟨⟨hframe, -⟩, hks⟩ := List.forall_mem_cons.1 hks
        obtain ⟨i, s, kfs', hi, hs, hps, rfl⟩ := castPairs_cons_eq_ok.1 hp
        obtain rfl : s = value := Except.ok.inj (hs.symm.trans hc)
        exact ⟨i, ⟨hframe, hi⟩, kfs', ⟨ks, rfl, hks, hps⟩, rfl⟩
  | case4 frame value vs hnumber =>
      obtain ⟨f, _, hf, htail, rfl⟩ := List.forall₂_cons_left_iff.1 h
      obtain ⟨n, ts, hn, hrest, rfl⟩ := List.forall₂_cons_left_iff.1 htail
      rw [keyframesOf?, if_neg hnumber]
      refine ⟨fun h => (by cases h), ?_⟩
      rintro ⟨_, ht, hks, -⟩
      obtain ⟨ks, rfl, -⟩ := eq_flatMap_keyframes_iff.1 ht
      exact absurd ((Scalar.isNumber_iff hn).1 (List.forall_mem_cons.1 hks).1.number) hnumber

theorem castPairs_isOk {ks : List KeyframeText} (hf : ∀ k ∈ ks, k.frame.castFrame.isOk)
    (hn : ∀ k ∈ ks, k.number.cast.isOk) : ∃ kfs, Builder.castPairs (pairsOf ks) = .ok kfs := by
  induction ks with
  | nil => exact ⟨[], rfl⟩
  | cons k ks ih =>
      obtain ⟨hkf, hf⟩ := List.forall_mem_cons.1 hf
      obtain ⟨hkn, hn⟩ := List.forall_mem_cons.1 hn
      obtain ⟨kfs, hp⟩ := ih hf hn
      cases hi : k.frame.castFrame <;> cases hs : k.number.cast <;>
        simp [hi, hs, Except.isOk, Except.toBool] at hkf hkn
      exact ⟨_, castPairs_cons_eq_ok.2 ⟨_, _, kfs, hi, hs, hp, rfl⟩⟩

theorem Written.cast_isOk (h : Written vs ts) : ∀ t ∈ ts, t.cast.isOk := by
  induction h with
  | nil => simp
  | cons hk _ ih =>
      obtain ⟨s, -, hc⟩ := Scalar.cast_of_kind? hk
      exact List.forall_mem_cons.2 ⟨by rw [hc]; rfl, ih⟩

theorem eq_curve_tokens_iff {o c : Token} {ct : CurveText} : o :: ts ++ [c] = ct.tokens ↔
    o = ct.opening ∧ ts = ct.word :: ct.keyframes.flatMap KeyframeText.tokens ∧
      c = ct.closing := by
  rw [CurveText.tokens, List.cons_append, List.cons_append, List.cons.injEq,
    ← List.concat_eq_append, ← List.concat_eq_append, List.concat_inj]

/-- Scalars are read back as a curve when their tokens in braces can be read as one. -/
theorem curveOf?_eq_some_iff (h : Written vs ts) {o c : Token} (ho : o.text = "\x7b")
    (hc : c.text = "\x7d") (curve : Curve) :
    curveOf? vs = some curve ↔ ∃ ct : CurveText, ct.WellFormed ∧ o :: ts ++ [c] = ct.tokens ∧
      Builder.castPairs ct.pairs = .ok curve.keyframes := by
  constructor
  · intro hv
    unfold curveOf? at hv
    split at hv
    · next rest =>
        obtain ⟨kfs, hk, rfl⟩ := Option.map_eq_some_iff.1 hv
        obtain ⟨hk, hne⟩ := Option.filter_eq_some_iff.1 hk
        obtain _ | ⟨hw, h⟩ := h
        obtain ⟨ks, rfl, hks, hp⟩ := (keyframesOf?_eq_some_iff h kfs).1 hk
        refine ⟨⟨o, _, ks, c⟩, ⟨ho, (Scalar.eq_curve_iff hw).2 rfl, hks, ?_, hc⟩, rfl, hp⟩
        rintro rfl
        obtain rfl : [] = kfs := Except.ok.inj hp
        simp at hne
    · cases hv
  · rintro ⟨⟨_, w, ks, _⟩, hw, ht, hp⟩
    obtain ⟨rfl, rfl, rfl⟩ := eq_curve_tokens_iff.1 ht
    obtain _ | ⟨hk, h⟩ := h
    obtain rfl := (Scalar.eq_curve_iff hk).1 hw.word
    have hkf := (keyframesOf?_eq_some_iff h curve.keyframes).2 ⟨ks, rfl, hw.keyframes, hp⟩
    have hne : curve.keyframes ≠ [] := by
      intro hn
      have hw := hw.keyframes_ne
      match ks, hw with
      | k :: ks, _ =>
          obtain ⟨_, _, _, -, -, -, hk⟩ := castPairs_cons_eq_ok.1 hp
          simp [hn] at hk
    simp [curveOf?, hkf, Option.filter, hne]

theorem bracedKinds?_eq_some (h : bracedKinds? vs = some (ts.map Token.kind)) :
    ∃ o items c, ts = o :: items ++ [c] ∧ o.text = "\x7b" ∧ c.text = "\x7d" ∧
      Written vs items := by
  obtain ⟨ks, hk, h⟩ := Option.map_eq_some_iff.1 h
  obtain ⟨o, rest, rfl, ho, hrest⟩ := List.map_eq_cons_iff.1 h.symm
  obtain ⟨items, last, rfl, rfl, hlast⟩ := List.map_eq_append_iff.1 hrest
  obtain ⟨c, more, rfl, hc, hmore⟩ := List.map_eq_cons_iff.1 hlast
  obtain rfl := List.map_eq_nil_iff.1 hmore
  exact ⟨o, items, c, rfl, (Prod.mk.inj ho).2, (Prod.mk.inj hc).2, written_iff.1 hk⟩

/-- Scalars in braces make a curve or a run. -/
theorem exists_braced (hne : vs ≠ []) (h : bracedKinds? vs = some (ts.map Token.kind)) :
    ∃ v : ValueText, v.tokens = ts ∧ v.WellFormed ∧
      ∃ value, v.value = .ok value ∧ bracedBack? vs = some value := by
  obtain ⟨o, items, c, rfl, ho, hc, hw⟩ := bracedKinds?_eq_some h
  obtain ⟨read, hr, hcs⟩ := hw.castAll
  match hcurve : curveOf? vs with
  | some curve =>
      obtain ⟨ct, hct, ht, hp⟩ := (curveOf?_eq_some_iff hw ho hc curve).1 hcurve
      refine ⟨.curve ct, ht.symm, ⟨hct, castFrame_isOk hp⟩, .animated curve, ?_, ?_⟩
      · rw [ValueText.value, hp]
        rfl
      · rw [bracedBack?, hr, hcurve]
        rfl
  | none =>
      refine ⟨.run o items c, rfl, ⟨?_, ?_, hw.isScalar, ?_⟩, .multi (.ofValues read), ?_, ?_⟩
      · simp [Builder.areDelimiters, ho, hc]
      · rintro rfl
        exact hne (List.forall₂_nil_right_iff.1 hw)
      · -- a curve whose frames can be read would have been read back as one
        rintro ⟨ct, hct, hf, ht⟩
        obtain ⟨-, hitems, -⟩ := eq_curve_tokens_iff.1 ht
        have hn : ∀ k ∈ ct.keyframes, k.number ∈ items := fun k hk => by
          rw [hitems]
          exact List.mem_cons_of_mem _ (List.mem_flatMap.2 ⟨k, hk, by simp [KeyframeText.tokens]⟩)
        obtain ⟨kfs, hp⟩ := castPairs_isOk hf fun k hk => hw.cast_isOk _ (hn k hk)
        have := (curveOf?_eq_some_iff hw ho hc ⟨kfs⟩).2 ⟨ct, hct, ht, hp⟩
        exact absurd (hcurve.symm.trans this) (by simp)
      · rw [ValueText.value, hcs]
        rfl
      · rw [bracedBack?, hr, hcurve]
        rfl

theorem Value.exists_text {v : Value} (hv : v.IsWritable)
    (h : v.kinds? = some (ts.map Token.kind)) : ∃ text : ValueText, text.tokens = ts ∧
      text.WellFormed ∧ ∃ value, text.value = .ok value ∧ v.readBack? = some value := by
  match v with
  | .scalar s =>
      obtain ⟨k, hk, h⟩ := Option.map_eq_some_iff.1 h
      obtain ⟨t, more, rfl, rfl, hmore⟩ := List.map_eq_cons_iff.1 h.symm
      obtain rfl := List.map_eq_nil_iff.1 hmore
      obtain ⟨s', hs, hc⟩ := Scalar.cast_of_kind? hk
      refine ⟨.single t, rfl, Scalar.isScalar_of_kind? hk, .scalar s', ?_, ?_⟩
      · rw [ValueText.value, hc]
        rfl
      · rw [readBack?, hs]
        rfl
  | .multi m =>
      obtain ⟨vs, hne, rfl⟩ := hv
      refine exists_braced ?_ h
      rwa [MultiChannel.values_ofValues]
  | .animated c => exact exists_braced (List.cons_ne_nil _ _) h

/-! ## Knobs and stack commands -/

theorem text_of_kind {name text : String} {t : Token} (h : t.kind = (name, text)) : t.text = text :=
  (Prod.mk.inj h).2

theorem isWord_of_wordKind {w : String} {t : Token} (hw : IsName w) (h : t.kind = wordKind w) :
    isWord t := by
  have : TokenRow.word.accepts t.text := text_of_kind h ▸ hw.accepted
  exact this

theorem Attribute.exists_text {a : Attribute} (ha : a.IsWritable)
    (h : a.kinds? = some (ts.map Token.kind)) : ∃ k : KnobText, k.tokens = ts ∧ k.WellFormed ∧
      ∃ a', k.knob = .ok a' ∧ a.readBack? = some a' := by
  obtain ⟨ks, hk, h⟩ := Option.map_eq_some_iff.1 h
  obtain ⟨n, rest, rfl, hn, rfl⟩ := List.map_eq_cons_iff.1 h.symm
  obtain ⟨v, rfl, hv, value, hvalue, hr⟩ := Value.exists_text ha.value hk
  have hk : KnobText.knob ⟨n, v⟩ = .ok ⟨a.name, value⟩ := by
    rw [KnobText.knob, hvalue, text_of_kind hn]
    rfl
  refine ⟨⟨n, v⟩, rfl, ⟨isWord_of_wordKind ha.name hn, hv, by rw [hk]; rfl⟩, _, hk, ?_⟩
  rw [readBack?, hr]
  rfl

/-- No stack command stands at the beginning. -/
def NoCommand (ts : List Token) : Prop :=
  ∀ c, IsCommand c → ¬c <+: ts

theorem noCommand_nil : NoCommand [] := by
  intro c hc hp
  obtain rfl := List.prefix_nil.1 hp
  exact absurd (two_le_length_of_isCommand hc) (by simp)

theorem noCommand_of_brace {first second : Token} (h : second.text = "\x7b") (rest : List Token) :
    NoCommand (first :: second :: rest) := by
  intro c hc hp
  obtain ⟨first', second', rest', rfl, hs⟩ := second_of_isCommand hc
  obtain ⟨more, he⟩ := hp
  simp only [List.cons_append, List.cons.injEq] at he
  exact hs (he.2.1 ▸ h)

/-- A stack command of a form is whole when those before it begin with another token. -/
theorem isWholeCommand_of_form (before : List (List (Token → Bool)))
    {after : List (List (Token → Bool))} {f : List (Token → Bool)}
    (hforms : commandForms = before ++ f :: after)
    (hf : List.Forall₂ (fun test t => test t = true) f ts)
    (hbefore : ∀ g ∈ before, ∀ test ∈ g.head?, ∀ t ∈ ts.head?, test t = false)
    (rest : List Token) : IsWholeCommand ts rest := by
  have hc : IsCommand ts := ⟨f, by simp [hforms], hf⟩
  refine ⟨hc, ?_⟩
  rintro taken ⟨g, hg, ht⟩ hp
  rw [hforms, List.mem_append] at hg
  rcases hg with hg | hg
  · obtain ⟨first, _, more, rfl, -⟩ := second_of_isCommand hc
    obtain _ | ⟨hfirst, _⟩ := ht
    · exact ⟨_, List.nil_append _⟩
    · obtain ⟨_, he⟩ := hp
      obtain ⟨rfl, -⟩ := List.cons.inj he
      exact absurd hfirst (by simp [hbefore _ hg _ rfl _ rfl])
  · exact prefix_of_first hforms hf (List.prefix_append ts rest) ht hp hg

theorem isText_iff {text : String} {t : Token} : isText text t ↔ t.text = text :=
  beq_iff_eq

theorem accepts_index (index : UInt64) : TokenRow.int.accepts (toString index.toNat) := by
  have hf := firstScan?_int false (Nat.toDigits_ne_nil (b := 10) (n := index.toNat))
    Decimal.isDigit_toDigits stops_nil
  rw [List.append_nil] at hf
  rw [Nat.toString_eq_ofList_toDigits]
  exact accepts_of_firstScan? hf

/-- The stack command of a binding is whole, and is read back as the binding. -/
theorem Binding.isWholeCommand {b : Binding} (hb : IsName b.variableName)
    (h : b.kinds = ts.map Token.kind) (rest : List Token) :
    IsWholeCommand ts rest ∧ Binding.ofWords? (ts.map Token.text) = some b := by
  match b with
  | .assign name index =>
      simp only [kinds, eq_comm (b := ts.map _), List.map_eq_cons_iff, List.map_eq_nil_iff] at h
      obtain ⟨set, _, rfl, hset, n, _, rfl, hn, o, _, rfl, ho, stack, _, rfl, hstack,
        i, _, rfl, hi, c, _, rfl, hc, rfl⟩ := h
      have hset := text_of_kind hset
      have ho := text_of_kind ho
      have hstack := text_of_kind hstack
      have hi := text_of_kind hi
      have hc := text_of_kind hc
      have hint : isInt i := by
        have := accepts_index index
        rw [← hi] at this
        exact this
      refine ⟨isWholeCommand_of_form [] rfl ?_ (by simp) rest, ?_⟩
      · refine .cons (isText_iff.2 hset) (.cons (isWord_of_wordKind hb hn)
          (.cons (isText_iff.2 ho) (.cons (isText_iff.2 hstack) (.cons hint
            (.cons (isText_iff.2 hc) .nil)))))
      · simp only [List.map_cons, List.map_nil, hset, text_of_kind hn, ho, hstack, hi, hc, ofWords?,
          Decimal.readUInt64?_toString, Option.map_some]
  | .recall name =>
      simp only [kinds, eq_comm (b := ts.map _), List.map_eq_cons_iff, List.map_eq_nil_iff] at h
      obtain ⟨push, _, rfl, hpush, dollar, _, rfl, hdollar, n, _, rfl, hn, rfl⟩ := h
      have hpush := text_of_kind hpush
      have hdollar := text_of_kind hdollar
      refine ⟨isWholeCommand_of_form [_] rfl ?_ ?_ rest, ?_⟩
      · exact .cons (isText_iff.2 hpush) (.cons (isText_iff.2 hdollar)
          (.cons (isWord_of_wordKind hb hn) .nil))
      · simp [isText, hpush]
      · simp [ofWords?, hpush, text_of_kind hn, hdollar]

/-! ## Nodes -/

/-- The tokens of written things are those of pieces, when this is so of each. -/
theorem exists_pieces {α β γ : Type} {f : α → Option (List (String × String))} {g : α → Option γ}
    {tokens : β → List Token} {Makes : β → γ → Prop} {as : List α}
    (hf : ∀ a ∈ as, ∀ ts, f a = some (ts.map Token.kind) →
      ∃ b c, tokens b = ts ∧ Makes b c ∧ g a = some c) {kss : List (List (String × String))}
    (h : as.mapM f = some kss) {ts : List Token} (ht : ts.map Token.kind = kss.flatten) :
    ∃ bs cs, bs.flatMap tokens = ts ∧ List.Forall₂ Makes bs cs ∧ as.mapM g = some cs := by
  induction as generalizing kss ts with
  | nil =>
      obtain rfl : [] = kss := Option.some.inj h
      exact ⟨[], [], (List.map_eq_nil_iff.1 ht).symm, .nil, rfl⟩
  | cons a as ih =>
      obtain ⟨ha, has⟩ := List.forall_mem_cons.1 hf
      rw [mapM_cons_eq, Option.bind_eq_some_iff] at h
      obtain ⟨ks, hk, h⟩ := h
      obtain ⟨kss', hks, rfl⟩ := Option.map_eq_some_iff.1 h
      obtain ⟨ts, ts', rfl, rfl, hts⟩ := List.map_eq_append_iff.1 ht
      obtain ⟨b, c, rfl, hm, hg⟩ := ha ts hk
      obtain ⟨bs, cs, rfl, hms, hgs⟩ := ih has hks hts
      refine ⟨b :: bs, c :: cs, rfl, .cons hm hms, ?_⟩
      rw [mapM_cons_eq, hg, hgs]
      rfl

/-- A block that stands for a node wherever no stack command follows. -/
def Makes (bl : BlockText) (n : Node) : Prop :=
  bl.Denotes n ∧ ∀ rest, NoCommand rest → bl.WellFormed rest

theorem Node.exists_block {n : Node} (hn : n.IsWritable)
    (h : n.kinds? = some (ts.map Token.kind)) :
    ∃ bl n', bl.tokens = ts ∧ Makes bl n' ∧ n.readBack? = some n' := by
  obtain ⟨kss, hk, h⟩ := Option.map_eq_some_iff.1 h
  obtain ⟨c, _, rfl, hc, h⟩ := List.map_eq_cons_iff.1 h.symm
  obtain ⟨o, _, rfl, ho, h⟩ := List.map_eq_cons_iff.1 h
  obtain ⟨inner, _, rfl, hinner, h⟩ := List.map_eq_append_iff.1 h
  obtain ⟨e, command, rfl, he, hcommand⟩ := List.map_eq_cons_iff.1 h
  have hattr : ∀ a ∈ n.attributes, ∀ ts, a.kinds? = some (ts.map Token.kind) →
      ∃ (k : KnobText) (a' : Attribute), k.tokens = ts ∧ (k.WellFormed ∧ k.knob = .ok a') ∧
        a.readBack? = some a' := by
    intro a ha ts h
    obtain ⟨k, hts, hw, a', hk, hr⟩ := Attribute.exists_text (hn.attributes a ha) h
    exact ⟨k, a', hts, ⟨hw, hk⟩, hr⟩
  obtain ⟨knobs, as, rfl, hks, has⟩ := exists_pieces hattr hk hinner
  have hr : n.readBack? = some ⟨n.className, as, n.binding⟩ := by
    rw [readBack?, has]
    rfl
  obtain ⟨hwell, hmakes⟩ := (List.forall₂_and_left _ _).1 hks
  match hb : n.binding with
  | none =>
      obtain rfl : command = [] := by simpa [hb] using hcommand
      refine ⟨⟨c, o, knobs, e, none⟩, ⟨n.className, as, n.binding⟩, rfl,
        ⟨⟨(text_of_kind hc).symm, hmakes, hb⟩, ?_⟩, hr⟩
      exact fun rest hrest => ⟨isWord_of_wordKind hn.className hc, text_of_kind ho, hwell,
        text_of_kind he, by simp, fun _ => hrest⟩
  | some b =>
      have hkinds : b.kinds = command.map Token.kind := by simpa [hb] using hcommand.symm
      have hwhole := Binding.isWholeCommand (hn.binding b hb) hkinds
      refine ⟨⟨c, o, knobs, e, some command⟩, ⟨n.className, as, n.binding⟩, rfl,
        ⟨⟨(text_of_kind hc).symm, hmakes, ?_⟩, ?_⟩, hr⟩
      · exact hb.trans (hwhole []).2.symm
      · exact fun rest _ => ⟨isWord_of_wordKind hn.className hc, text_of_kind ho, hwell,
          text_of_kind he, fun ts hts => Option.some.inj hts ▸ (hwhole rest).1, nofun⟩

/-- Blocks one after another are statements. -/
theorem wellFormed_blocks {bls : List BlockText} {ns : List Node}
    (h : List.Forall₂ Makes bls ns) : WellFormed (bls.map Statement.block) ∧
      List.Forall₂ BlockText.Denotes (blocksOf (bls.map Statement.block)) ns ∧
      NoCommand (tokensOf (bls.map Statement.block)) := by
  induction h with
  | nil => exact ⟨trivial, .nil, noCommand_nil⟩
  | cons hm _ ih =>
      obtain ⟨hw, hd, hn⟩ := ih
      have hwell := hm.2 _ hn
      exact ⟨⟨hwell, hw⟩, .cons hm.1 hd, noCommand_of_brace hwell.opening _⟩

/-! ## Scripts -/

theorem isSome_mapM {α β : Type} {f : α → Option β} {as : List α} :
    (as.mapM f).isSome ↔ ∀ a ∈ as, (f a).isSome := by
  induction as with
  | nil => simp [List.mapM_nil]
  | cons a as ih =>
      rw [mapM_cons_eq, List.forall_mem_cons, ← ih]
      cases f a <;> cases as.mapM f <;> simp

theorem Scalar.isSome_kind? (s : Scalar) : s.kind?.isSome ↔ s.readBack?.isSome := by
  match s with
  | .bool _ => simp [kind?, rowName?, readBack?]
  | .int _ => simp [kind?, rowName?, readBack?]
  | .text _ => simp [kind?, rowName?, readBack?]
  | .float .nan => simp [kind?, rowName?, readBack?]
  | .float (.infinite true) => simp [kind?, rowName?, readBack?]
  | .float (.infinite false) => simp [kind?, rowName?, readBack?]
  | .float (.finite ..) => simp [kind?, rowName?, readBack?]

theorem isSome_bracedKinds? (vs : List Scalar) :
    (bracedKinds? vs).isSome ↔ (bracedBack? vs).isSome := by
  simp only [bracedKinds?, bracedBack?, Option.isSome_map, isSome_mapM, Scalar.isSome_kind?]

theorem Value.isSome_kinds? (v : Value) : v.kinds?.isSome ↔ v.readBack?.isSome := by
  match v with
  | .scalar s => simpa [kinds?, readBack?] using s.isSome_kind?
  | .multi m => exact isSome_bracedKinds? m.values
  | .animated c => exact isSome_bracedKinds? c.items
  | .block _ => exact Iff.rfl

/-- What is cut into tokens is what reads back. -/
theorem Node.isSome_kinds? (n : Node) : n.kinds?.isSome ↔ n.readBack?.isSome := by
  simp only [kinds?, readBack?, Option.isSome_map, isSome_mapM, Attribute.kinds?,
    Attribute.readBack?, Value.isSome_kinds?]

variable {p : ScriptParser}

theorem parse_of_kinds? (hp : p.IsScript) {nodes : List Node} (h : ∀ n ∈ nodes, n.IsWritable)
    (hk : (script.kinds? (Node.renderScript nodes).toList).isSome) :
    ∃ ns, nodes.mapM Node.readBack? = some ns ∧ p.parse (Node.renderScript nodes) = .ok ns := by
  obtain ⟨ks, hks⟩ := Option.isSome_iff_exists.1 hk
  obtain ⟨ts, htok, rfl⟩ := kinds?_eq_some_iff.1 hks
  rw [kinds?_renderScript h, Option.map_eq_some_iff] at hks
  obtain ⟨kss, hks, hts⟩ := hks
  obtain ⟨bls, ns, rfl, hm, hr⟩ := exists_pieces
    (fun n hn _ hk => Node.exists_block (h n hn) hk) hks hts.symm
  obtain ⟨hw, hd, -⟩ := wellFormed_blocks hm
  have htokens : tokensOf (bls.map Statement.block) = bls.flatMap BlockText.tokens := by
    rw [tokensOf, List.flatMap_map]
    rfl
  refine ⟨ns, hr, (hp.parse_eq_ok_iff _ _).2 ⟨bls.map .block, ?_, hw, hd⟩⟩
  rw [ScriptParser.tokenize, hp.tokens, htok, htokens]

/-- A written script is read as what its nodes read back as. -/
theorem parse_renderScript (hp : p.IsScript) {nodes : List Node} (h : ∀ n ∈ nodes, n.IsWritable)
    (ns : List Node) :
    p.parse (Node.renderScript nodes) = .ok ns ↔ nodes.mapM Node.readBack? = some ns := by
  constructor
  · intro hparse
    obtain ⟨ss, htok, -, -⟩ := (hp.parse_eq_ok_iff _ _).1 hparse
    rw [ScriptParser.tokenize, hp.tokens] at htok
    have hk : (script.kinds? (Node.renderScript nodes).toList).isSome :=
      Option.isSome_iff_exists.2 ⟨_, kinds?_eq_some_iff.2 ⟨_, htok, rfl⟩⟩
    obtain ⟨ns', hr, hparse'⟩ := parse_of_kinds? hp h hk
    rw [hr, Except.ok.inj (hparse.symm.trans hparse')]
  · intro hr
    have hk : (script.kinds? (Node.renderScript nodes).toList).isSome := by
      have hs : (nodes.mapM Node.readBack?).isSome := by rw [hr]; rfl
      rw [kinds?_renderScript h, Option.isSome_map, isSome_mapM]
      exact fun n hn => n.isSome_kinds?.2 (isSome_mapM.1 hs n hn)
    obtain ⟨ns', hr', hparse⟩ := parse_of_kinds? hp h hk
    rw [hparse, Option.some.inj (hr'.symm.trans hr)]

end NodeScript
