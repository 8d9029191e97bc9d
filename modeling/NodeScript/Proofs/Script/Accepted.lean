import NodeScript.Proofs.Results
import NodeScript.Proofs.Script.RoundTrip

/-!
# Nodes of accepted scripts

The nodes of an accepted script have names and values that a script can hold: its words are tokens
of their own, its numbers are cast to numbers, and its frames are floating-point numbers.
-/

namespace NodeScript

open TokenTable Script

/-! ## Tokens -/

/-- A word is a token of its own, and a number is of a row of numbers. -/
structure Token.IsCut (t : Token) : Prop where
  word : isWord t → IsName t.text
  number : Script.isNumber t → t.name = "FLOAT" ∨ t.name = "INT"

theorem isCut_of_tokenize {text : String} {ts : List Token}
    (h : (script.tokenize text).map Token.significant = .ok ts) : ∀ t ∈ ts, t.IsCut := by
  obtain ⟨all, hk, rfl⟩ := map_eq_ok_iff.1 h
  intro t ht
  have ht : t ∈ all := List.mem_of_mem_filter ht
  exact ⟨fun hw => ⟨standsAlone_of_mem hk ht hw, hw⟩,
    fun hn => name_of_mem hk ht (Bool.or_eq_true_iff.1 hn)⟩

variable {t : Token}

theorem isNumeric_of_castFloat {kind : NumberKind} {text : String} {s : Scalar}
    (h : Token.castFloat kind text = .ok s) : s.isNumeric := by
  unfold Token.castFloat at h
  split at h
  · rw [← Except.ok.inj h]
    rfl
  · cases h

/-- The token of a number is cast to a number. -/
theorem isNumeric_of_cast (ht : t.IsCut) (hn : Script.isNumber t) {s : Scalar}
    (h : t.cast = .ok s) : s.isNumeric := by
  rcases ht.number hn with hname | hname
  · simp only [Token.cast, hname] at h
    exact isNumeric_of_castFloat h
  · simp only [Token.cast, hname] at h
    split at h
    · rw [← Except.ok.inj h]
      rfl
    · exact isNumeric_of_castFloat h

/-! ## Frames -/

theorem Binary64.negative_of_ofRounded {negative n : Bool} {m s m' s' : Nat}
    {h : IsCanonical m' s'} (hr : ofRounded negative m s = .finite n m' s' h) : n = negative := by
  unfold ofRounded at hr
  split at hr
  · injection hr with hr
    exact hr.symm
  · split at hr
    · injection hr with hr
      exact hr.symm
    · cases hr

theorem Binary64.negative_of_ofDecimal {negative n : Bool} {d : Nat} {e : Int} {m s : Nat}
    {h : IsCanonical m s} (hd : ofDecimal negative d e = .finite n m s h) : n = negative := by
  unfold ofDecimal at hd
  repeat' split at hd
  · injection hd with hd
    exact hd.symm
  · cases hd
  · injection hd with hd
    exact hd.symm
  · exact negative_of_ofRounded hd
  · exact negative_of_ofRounded hd

theorem Decimal.toInt_of_toInt64? {i : Int} {frame : Int64} (h : toInt64? i = some frame) :
    frame.toInt = i := by
  unfold toInt64? at h
  split at h
  · next hi =>
      have hmin : Int64.minValue.toInt = -2 ^ 63 := rfl
      have hmax : Int64.maxValue.toInt = 2 ^ 63 - 1 := rfl
      rw [← Option.some.inj h, Int64.toInt_ofInt_of_le (by omega) (by omega)]
  · cases h

/-- A frame that is cast is a floating-point number without a minus. -/
theorem isFrameNumber_of_castFrame (h : isFrame t) {frame : Int64}
    (hc : t.castFrame = .ok frame) : IsFrameNumber frame := by
  obtain ⟨n, hw, ht⟩ : ∃ n : Numeral, n.WellFormed ∧ t.text = String.ofList ('x' :: n.text) := by
    obtain ⟨ds, hne, hd, ht | ⟨ds', -, hd', ht⟩⟩ := Scalar.isFrame_iff.1 h
    · refine ⟨⟨ds, none, none⟩, ⟨hne, hd, by simp, by simp, by simp⟩, ?_⟩
      rw [← String.ofList_toList (s := t.text), ht]
      simp [Numeral.text, Numeral.exponentText]
    · refine ⟨⟨ds, some ds', none⟩, ⟨hne, hd, by simpa using hd', by simp, by simp⟩, ?_⟩
      rw [← String.ofList_toList (s := t.text), ht]
      simp [Numeral.text, Numeral.exponentText]
  rw [Scalar.castFrame_eq_ok_iff ht] at hc
  have hread := Numeral.read?_text hw false
  rw [Decimal.minus, if_neg (by simp), List.nil_append] at hread
  rw [hread, Option.bind_some, Option.bind_eq_some_iff] at hc
  obtain ⟨i, hi, hframe⟩ := hc
  cases hx : n.number false with
  | nan => simp [hx, Binary64.toInt?] at hi
  | infinite _ => simp [hx, Binary64.toInt?] at hi
  | finite negative m s hcan =>
      obtain rfl : negative = false := Binary64.negative_of_ofDecimal hx
      rw [hx] at hi
      have := Binary64.isWhole_of_toInt? hi
      rwa [IsFrameNumber, Decimal.toInt_of_toInt64? hframe]

/-! ## Values -/

theorem castAll_ne_nil {ts : List Token} {vs : List Scalar} (h : Builder.castAll ts = .ok vs)
    (hne : ts ≠ []) : vs ≠ [] := by
  rintro rfl
  obtain ⟨t, ts, rfl⟩ := List.exists_cons_of_ne_nil hne
  cases ht : t.cast <;> cases hts : Builder.castAll ts <;>
    simp [Builder.castAll, ht, hts, bind, Except.bind] at h

theorem keyframes_of_castPairs {ks : List KeyframeText} {kfs : List Keyframe}
    (h : Builder.castPairs (pairsOf ks) = .ok kfs) (hw : ∀ k ∈ ks, k.WellFormed)
    (ht : ∀ k ∈ ks, k.number.IsCut) :
    kfs.length = ks.length ∧ ∀ k ∈ kfs, IsFrameNumber k.frame ∧ k.value.isNumeric := by
  induction ks generalizing kfs with
  | nil =>
      obtain rfl : [] = kfs := Except.ok.inj h
      exact ⟨rfl, by simp⟩
  | cons k ks ih =>
      obtain ⟨hk, hw⟩ := List.forall_mem_cons.1 hw
      obtain ⟨hkt, ht⟩ := List.forall_mem_cons.1 ht
      obtain ⟨i, s, kfs', hi, hs, hp, rfl⟩ := castPairs_cons_eq_ok.1 h
      obtain ⟨hl, hks⟩ := ih hp hw ht
      refine ⟨congrArg (· + 1) hl, List.forall_mem_cons.2 ⟨⟨?_, ?_⟩, hks⟩⟩
      · exact isFrameNumber_of_castFrame hk.frame hi
      · exact isNumeric_of_cast hkt hk.number hs

/-- The curve of a text is one that a script can give. -/
theorem isScripted_of_castPairs {c : CurveText} (hw : c.WellFormed) (ht : ∀ t ∈ c.tokens, t.IsCut)
    {kfs : List Keyframe} (h : Builder.castPairs c.pairs = .ok kfs) :
    (Value.animated ⟨kfs⟩).IsScripted := by
  have hnumbers : ∀ k ∈ c.keyframes, k.number.IsCut := fun k hk => by
    refine ht _ ?_
    have : k.number ∈ c.keyframes.flatMap KeyframeText.tokens :=
      List.mem_flatMap.2 ⟨k, hk, by simp [KeyframeText.tokens]⟩
    simp [CurveText.tokens, this]
  obtain ⟨hl, hks⟩ := keyframes_of_castPairs h hw.keyframes hnumbers
  refine ⟨fun hn => hw.keyframes_ne (List.length_eq_zero_iff.1 ?_), hks⟩
  rw [← hl, show kfs = [] from hn, List.length_nil]

theorem isScripted_of_value {v : ValueText} (hw : v.WellFormed) (ht : ∀ t ∈ v.tokens, t.IsCut)
    {value : Value} (h : v.value = .ok value) : value.IsScripted := by
  match v with
  | .single t =>
      obtain ⟨s, -, rfl⟩ := map_eq_ok_iff.1 h
      trivial
  | .run o items c =>
      obtain ⟨vs, hs, rfl⟩ := map_eq_ok_iff.1 h
      exact ⟨vs, castAll_ne_nil hs hw.2.1, rfl⟩
  | .curve c =>
      obtain ⟨kfs, hs, rfl⟩ := map_eq_ok_iff.1 h
      exact isScripted_of_castPairs hw.1 ht hs
  | .wrapped o c e =>
      obtain ⟨kfs, hs, rfl⟩ := map_eq_ok_iff.1 h
      refine isScripted_of_castPairs hw.2.1 (fun t hc => ht t ?_) hs
      simp [ValueText.tokens, hc]

/-! ## Nodes -/

/-- The variable of a stack command is a word of it. -/
theorem variableName_of_command {ts : List Token} (hc : IsCommand ts) {b : Binding}
    (hb : Binding.ofWords? (ts.map Token.text) = some b) :
    ∃ t ∈ ts, isWord t ∧ t.text = b.variableName := by
  obtain ⟨form, hform, hf⟩ := hc
  have six : ∀ form ∈ commandForms, form.length = 6 → form[1]? = some isWord := by
    simp [commandForms]
  have three : ∀ form ∈ commandForms, form.length = 3 → form[2]? = some isWord := by
    simp [commandForms]
  have hl := hf.length_eq
  unfold Binding.ofWords? at hb
  split at hb
  · next name index h =>
      obtain ⟨i, -, rfl⟩ := Option.map_eq_some_iff.1 hb
      have hw := six form hform (by simpa [hl] using congrArg List.length h)
      obtain ⟨_, _, rfl, -, h⟩ := List.map_eq_cons_iff.1 h
      obtain ⟨n, _, rfl, hn, -⟩ := List.map_eq_cons_iff.1 h
      obtain _ | ⟨-, _ | ⟨hword, -⟩⟩ := hf
      obtain rfl := Option.some.inj hw
      exact ⟨n, by simp, hword, hn⟩
  · next name h =>
      obtain rfl := Option.some.inj hb
      have hw := three form hform (by simpa [hl] using congrArg List.length h)
      obtain ⟨_, _, rfl, -, h⟩ := List.map_eq_cons_iff.1 h
      obtain ⟨_, _, rfl, -, h⟩ := List.map_eq_cons_iff.1 h
      obtain ⟨n, _, rfl, hn, -⟩ := List.map_eq_cons_iff.1 h
      obtain _ | ⟨-, _ | ⟨-, _ | ⟨hword, -⟩⟩⟩ := hf
      obtain rfl := Option.some.inj hw
      exact ⟨n, by simp, hword, hn⟩
  · cases hb

/-- The node that a block denotes is one that a script can give. -/
theorem isScripted_of_denotes {bl : BlockText} {rest : List Token} (hw : bl.WellFormed rest)
    (ht : ∀ t ∈ bl.tokens, t.IsCut) {n : Node} (hd : bl.Denotes n) : n.IsScripted := by
  have hknobs : ∀ k ∈ bl.knobs, ∀ t ∈ k.tokens, t.IsCut := fun k hk t hkt => by
    have : t ∈ bl.knobs.flatMap KnobText.tokens := List.mem_flatMap.2 ⟨k, hk, hkt⟩
    exact ht t (by simp [BlockText.tokens, this])
  have hattr : ∀ a ∈ n.attributes, IsName a.name ∧ a.value.IsScripted := fun a ha => by
    obtain ⟨k, hk, hka⟩ := exists_left_of_forall₂ hd.attributes a ha
    obtain ⟨value, hv, rfl⟩ := map_eq_ok_iff.1 hka
    have hkw := hw.knobs k hk
    refine ⟨(hknobs k hk _ (List.mem_cons_self ..)).word hkw.name, ?_⟩
    exact isScripted_of_value hkw.value (fun t hv => hknobs k hk t (List.mem_cons_of_mem _ hv)) hv
  refine ⟨?_, fun a ha => (hattr a ha).1, fun a ha => (hattr a ha).2, fun b hb => ?_⟩
  · rw [hd.className]
    exact (ht _ (by simp [BlockText.tokens])).word hw.className
  · have hbind := hd.binding
    rw [show n.binding = some b from hb] at hbind
    obtain ⟨ts, hc, hwords⟩ := Option.bind_eq_some_iff.1 hbind.symm
    obtain ⟨t, hmem, hword, hname⟩ := variableName_of_command (hw.command ts hc).command hwords
    rw [← hname]
    refine (ht t ?_).word hword
    have hc : bl.command = some ts := hc
    simp [BlockText.tokens, hc, hmem]

/-- The blocks among statements are well formed and made of their tokens. -/
theorem wellFormed_of_mem_blocksOf {ss : List Statement} (h : WellFormed ss) :
    ∀ bl ∈ blocksOf ss, (∃ rest, bl.WellFormed rest) ∧ ∀ t ∈ bl.tokens, t ∈ tokensOf ss := by
  induction ss with
  | nil => simp [blocksOf]
  | cons s ss ih =>
      obtain ⟨hs, hss⟩ := h
      have hrest : ∀ bl ∈ blocksOf ss, (∃ rest, bl.WellFormed rest) ∧
          ∀ t ∈ bl.tokens, t ∈ tokensOf (s :: ss) := fun bl hbl => by
        obtain ⟨hw, ht⟩ := ih hss bl hbl
        exact ⟨hw, fun t hbt => List.mem_append.2 (.inr (ht t hbt))⟩
      cases s with
      | block bl =>
          exact List.forall_mem_cons.2
            ⟨⟨⟨_, hs⟩, fun t ht => List.mem_append.2 (.inl ht)⟩, hrest⟩
      | command ts => exact hrest

/-- Every node of an accepted script is one that a script can give. -/
theorem isScripted_of_parse {p : ScriptParser} (hp : p.IsScript) {text : String} {ns : List Node}
    (h : p.parse text = .ok ns) : ∀ n ∈ ns, n.IsScripted := by
  obtain ⟨ss, htok, hw, hd⟩ := (hp.parse_eq_ok_iff _ _).1 h
  rw [ScriptParser.tokenize, hp.tokens] at htok
  have hcut := isCut_of_tokenize htok
  intro n hn
  obtain ⟨bl, hbl, hden⟩ := exists_left_of_forall₂ hd n hn
  obtain ⟨⟨rest, hwell⟩, htokens⟩ := wellFormed_of_mem_blocksOf hw bl hbl
  exact isScripted_of_denotes hwell (fun t ht => hcut t (htokens t ht)) hden

end NodeScript
