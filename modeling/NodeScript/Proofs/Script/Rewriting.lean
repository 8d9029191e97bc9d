import NodeScript.Proofs.Script.Accepted

/-!
# Rewriting scripts

Which accepted scripts keep their nodes when they are written anew: those of stable nodes. Any
other number or curve-like run of channels turns into something else, or into no script at all.
-/

namespace NodeScript

open Script

/-! ## Stable nodes equal themselves -/

theorem Binary64.numEq_self {x : Binary64} (h : x.isFinite) : x.numEq x := by
  cases x with
  | nan => cases h
  | infinite negative => cases h
  | finite negative m s hc => simp [numEq]

theorem Scalar.same_self {s : Scalar} (h : s.isFinite) : s.same s := by
  match s with
  | .bool _ => simp [same]
  | .int _ => simp [same]
  | .text _ => simp [same]
  | .float x => exact Binary64.numEq_self h

theorem sameChannels_self {cs : List Channel} (h : ∀ c ∈ cs, ∀ s ∈ c.value, s.isFinite) :
    Value.same.sameChannels cs cs := by
  induction cs with
  | nil => rfl
  | cons c cs ih =>
      obtain ⟨hc, hcs⟩ := List.forall_mem_cons.1 h
      have hv : Value.same.sameOptions c.value c.value := by
        match hv : c.value with
        | none => rfl
        | some s => exact Scalar.same_self (hc s hv)
      simp [Value.same.sameChannels, hv, ih hcs]

theorem sameKeyframes_self {ks : List Keyframe} (h : ∀ k ∈ ks, k.value.isFinite) :
    Value.same.sameKeyframes ks ks := by
  induction ks with
  | nil => rfl
  | cons k ks ih =>
      obtain ⟨hk, hks⟩ := List.forall_mem_cons.1 h
      simp [Value.same.sameKeyframes, Scalar.same_self hk, ih hks]

theorem Value.same_self {v : Value} (h : v.IsStable) : v.same v := by
  match v with
  | .scalar s => exact Scalar.same_self h
  | .multi m =>
      exact sameChannels_self fun c hc s hs => h.1 s (List.mem_filterMap.2 ⟨c, hc, hs⟩)
  | .animated c => exact sameKeyframes_self h
  | .block _ => simp [same]

theorem sameAttributes_self {as : List Attribute} (h : ∀ a ∈ as, a.value.IsStable) :
    Node.same.sameAttributes as as := by
  induction as with
  | nil => rfl
  | cons a as ih =>
      obtain ⟨ha, has⟩ := List.forall_mem_cons.1 h
      simp [Node.same.sameAttributes, Value.same_self ha, ih has]

theorem sameList_self {ns : List Node} (h : ∀ n ∈ ns, n.IsStable) : Node.sameList ns ns := by
  induction ns with
  | nil => rfl
  | cons n ns ih =>
      obtain ⟨hn, hns⟩ := List.forall_mem_cons.1 h
      simp [Node.sameList, Node.same, sameAttributes_self hn, ih hns]

/-! ## Other nodes do not read back as equal ones -/

theorem Scalar.isFinite_of_same {s s' : Scalar} (hr : s.readBack? = some s') (h : s'.same s) :
    s.isFinite := by
  match s with
  | .bool _ => rfl
  | .int _ => rfl
  | .text _ => rfl
  | .float (.finite ..) => rfl
  | .float .nan =>
      obtain rfl := Option.some.inj hr
      cases h
  | .float (.infinite false) =>
      obtain rfl := Option.some.inj hr
      cases h
  | .float (.infinite true) => cases hr

theorem isFinite_of_forall₂ {vs vs' : List Scalar} (hr : vs.mapM Scalar.readBack? = some vs')
    (h : List.Forall₂ (fun s' s => s'.same s) vs' vs) : ∀ s ∈ vs, s.isFinite := by
  rw [mapM_eq_some_iff] at hr
  induction hr with
  | nil => simp
  | cons hs _ ih =>
      obtain _ | ⟨hsame, h⟩ := h
      exact List.forall_mem_cons.2 ⟨Scalar.isFinite_of_same hs hsame, ih h⟩

/-- Equal channels hold equal values. -/
theorem forall₂_of_sameChannels {as bs : List Channel} (h : Value.same.sameChannels as bs) :
    List.Forall₂ (fun s' s => s'.same s) (as.filterMap Channel.value)
      (bs.filterMap Channel.value) := by
  induction as generalizing bs with
  | nil =>
      cases bs with
      | nil => exact .nil
      | cons => cases h
  | cons a as ih =>
      cases bs with
      | nil => cases h
      | cons b bs =>
          simp only [Value.same.sameChannels, Bool.and_eq_true] at h
          obtain ⟨⟨-, hv⟩, h⟩ := h
          cases ha : a.value <;> cases hb : b.value <;>
            simp only [ha, hb, Value.same.sameOptions, Bool.false_eq_true] at hv
          · simpa [ha, hb] using ih h
          · simpa [ha, hb, hv] using ih h

theorem isNumber_of_keyframesOf? {ks kfs : List Keyframe}
    (h : keyframesOf? (ks.flatMap fun k => [.text ("x" ++ toString k.frame.toInt), k.value]) =
      some kfs) : ∀ k ∈ ks, k.value.isNumber := by
  induction ks generalizing kfs with
  | nil => simp
  | cons k ks ih =>
      rw [List.flatMap_cons, List.cons_append, List.singleton_append, keyframesOf?,
        Option.ite_none_right_eq_some] at h
      obtain ⟨hk, h⟩ := h
      obtain ⟨i, -, h⟩ := Option.bind_eq_some_iff.1 h
      obtain ⟨kfs', h, -⟩ := Option.map_eq_some_iff.1 h
      exact List.forall_mem_cons.2 ⟨hk, ih h⟩

theorem bracedBack?_eq_some {vs : List Scalar} {value : Value} (h : bracedBack? vs = some value) :
    ∃ read, vs.mapM Scalar.readBack? = some read ∧
      ((∃ c, curveOf? vs = some c ∧ value = .animated c) ∨
        curveOf? vs = none ∧ value = .multi (.ofValues read)) := by
  obtain ⟨read, hr, rfl⟩ := Option.map_eq_some_iff.1 h
  refine ⟨read, hr, ?_⟩
  cases curveOf? vs <;> simp

theorem Value.isStable_of_same {v v' : Value} (hs : v.IsScripted) (hr : v.readBack? = some v')
    (h : v'.same v) : v.IsStable := by
  match v with
  | .scalar s =>
      obtain ⟨s', hs', rfl⟩ := Option.map_eq_some_iff.1 hr
      exact Scalar.isFinite_of_same hs' h
  | .multi m =>
      obtain ⟨vs, -, rfl⟩ := hs
      rw [readBack?, MultiChannel.values_ofValues] at hr
      rw [IsStable, MultiChannel.values_ofValues]
      obtain ⟨read, hread, ⟨c, -, rfl⟩ | ⟨hc, rfl⟩⟩ := bracedBack?_eq_some hr
      · cases h
      · have hv := forall₂_of_sameChannels h
        rw [← MultiChannel.values, ← MultiChannel.values, MultiChannel.values_ofValues,
          MultiChannel.values_ofValues] at hv
        exact ⟨isFinite_of_forall₂ hread hv, hc⟩
  | .animated c =>
      obtain ⟨read, hread, ⟨c', hc, rfl⟩ | ⟨-, rfl⟩⟩ := bracedBack?_eq_some hr
      · obtain ⟨kfs, hk, -⟩ := Option.map_eq_some_iff.1 hc
        have hk := (Option.filter_eq_some_iff.1 hk).1
        exact fun k hmem => (Scalar.isNumeric_of_isNumber (isNumber_of_keyframesOf? hk k hmem)).2
      · cases h

theorem isStable_of_sameAttributes {as as' : List Attribute}
    (hs : ∀ a ∈ as, a.value.IsScripted) (hr : as.mapM Attribute.readBack? = some as')
    (h : Node.same.sameAttributes as' as) : ∀ a ∈ as, a.value.IsStable := by
  rw [mapM_eq_some_iff] at hr
  induction hr with
  | nil => simp
  | cons ha _ ih =>
      obtain ⟨hsa, hs⟩ := List.forall_mem_cons.1 hs
      simp only [Node.same.sameAttributes, Bool.and_eq_true] at h
      obtain ⟨v', hv, rfl⟩ := Option.map_eq_some_iff.1 ha
      exact List.forall_mem_cons.2 ⟨Value.isStable_of_same hsa hv h.1.2, ih hs h.2⟩

theorem isStable_of_sameList {ns ms : List Node} (hs : ∀ n ∈ ns, n.IsScripted)
    (hr : ns.mapM Node.readBack? = some ms) (h : Node.sameList ms ns) : ∀ n ∈ ns, n.IsStable := by
  rw [mapM_eq_some_iff] at hr
  induction hr with
  | nil => simp
  | cons hn _ ih =>
      obtain ⟨hsn, hs⟩ := List.forall_mem_cons.1 hs
      simp only [Node.sameList, Node.same, Bool.and_eq_true] at h
      obtain ⟨as', ha, rfl⟩ := Option.map_eq_some_iff.1 hn
      exact List.forall_mem_cons.2
        ⟨isStable_of_sameAttributes hsn.values ha h.1.2, ih hs h.2⟩

/-! ## Rewriting -/

/-- Written anew, the nodes of an accepted script are read as equal nodes exactly when all of them
are stable, and then they are the same. -/
theorem shipped_rewrite_iff_isStable (text : String) (ns : List Node) :
    ∃ p, ScriptParser.shipped = .ok p ∧ (p.parse text = .ok ns →
      ((∃ ms, p.parse (Node.renderScript ns) = .ok ms ∧ Node.sameList ms ns) ↔
        ∀ n ∈ ns, n.IsStable) ∧
      ((∀ n ∈ ns, n.IsStable) → p.parse (Node.renderScript ns) = .ok ns)) := by
  obtain ⟨p, hp, hscript⟩ := ScriptParser.shipped_isScript
  refine ⟨p, hp, fun hns => ?_⟩
  have hs := isScripted_of_parse hscript hns
  have keeps (h : ∀ n ∈ ns, n.IsStable) : p.parse (Node.renderScript ns) = .ok ns :=
    parse_of_isStable hscript hs h
  refine ⟨⟨?_, fun h => ⟨ns, keeps h, sameList_self h⟩⟩, keeps⟩
  rintro ⟨ms, hms, hsame⟩
  have hr := (parse_renderScript hscript (fun n hn => (hs n hn).isWritable) ms).1 hms
  exact isStable_of_sameList hs hr hsame

/-- The nodes that the rules read in the tokens of a text. -/
def nodesOf? (text : String) : Option (List Node) :=
  (TokenTable.script.tokenize text).toOption.bind fun ts =>
    let ts := Token.significant ts
    (read ts.length 100 "main" ts).bind fun taken =>
      if taken.2.isEmpty then some taken.1.nodes else none

theorem parse_of_nodesOf? {p : ScriptParser} (hp : p.IsScript) {text : String} {ns : List Node}
    (h : nodesOf? text = some ns) : p.parse text = .ok ns := by
  obtain ⟨ts, ht, h⟩ := Option.bind_eq_some_iff.1 h
  have ht : TokenTable.script.tokenize text = .ok ts := by
    cases hx : TokenTable.script.tokenize text <;> simp_all [Except.toOption]
  obtain ⟨⟨t, rest⟩, hr, h⟩ := Option.bind_eq_some_iff.1 h
  obtain ⟨hrest, h⟩ := Option.ite_none_right_eq_some.1 h
  obtain rfl : rest = [] := List.isEmpty_iff.1 hrest
  obtain ⟨ss, hts, hw, hd⟩ := main_sound _ 90 (Nat.le_refl _) hr
  refine (hp.parse_eq_ok_iff _ _).2 ⟨ss, ?_, hw, ?_⟩
  · rw [ScriptParser.tokenize, hp.tokens, ← hts, ht]
    rfl
  · rwa [← Option.some.inj h]

/-- A number too large and channels that look like a curve. -/
def unstableNodes : List Node := [
  ⟨"A", [⟨"a", .scalar (.float (.infinite false))⟩], none⟩,
  ⟨"B", [⟨"b", .multi (.ofValues [.text "curve", .text "x1", .int 1])⟩], none⟩]

theorem shipped_rewrite_unstable : ∃ p, ScriptParser.shipped = .ok p ∧
    p.parse "A \x7b a 1e999 \x7d B \x7b b (curve x1 1) \x7d" = .ok unstableNodes ∧
    ¬∃ ms, p.parse (Node.renderScript unstableNodes) = .ok ms ∧
      Node.sameList ms unstableNodes := by
  obtain ⟨p, hp, h⟩ := shipped_rewrite_iff_isStable
    "A \x7b a 1e999 \x7d B \x7b b (curve x1 1) \x7d" unstableNodes
  have hparse : p.parse "A \x7b a 1e999 \x7d B \x7b b (curve x1 1) \x7d" = .ok unstableNodes := by
    obtain ⟨p', hp', hs⟩ := ScriptParser.shipped_isScript
    obtain rfl := Except.ok.inj (hp.symm.trans hp')
    exact parse_of_nodesOf? hs (by decide +kernel)
  refine ⟨p, hp, hparse, fun hm => ?_⟩
  have hstable := (h hparse).1.1 hm
  exact absurd (hstable _ (List.mem_cons_self ..) _ (List.mem_cons_self ..)) nofun

end NodeScript
