import NodeScript.Proofs.Script.Rereading

/-!
# Round trip

What a script can hold and keeps when it is written: proper names, finite numbers, frames that are
floating-point numbers, and no channels that look like a curve.
-/

namespace NodeScript

open Binary64 (IsWhole)

/-! ## Nodes of scripts -/

/-- A frame that a script can name: a floating-point number without a minus. -/
def IsFrameNumber (frame : Int64) : Prop :=
  0 ≤ frame.toInt ∧ IsWhole frame.toInt.toNat

/-- The scalar is a number, finite or not. -/
def Scalar.isNumeric : Scalar → Bool
  | .int _ => true
  | .float _ => true
  | _ => false

/-- The value is one that a script can give. -/
def Value.IsScripted : Value → Prop
  | .scalar _ => True
  | .multi m => ∃ vs, vs ≠ [] ∧ m = .ofValues vs
  | .animated c => c.keyframes ≠ [] ∧ ∀ k ∈ c.keyframes, IsFrameNumber k.frame ∧ k.value.isNumeric
  | .block _ => False

/-- The node is one that a script can give. -/
structure Node.IsScripted (n : Node) : Prop where
  className : IsName n.className
  names : ∀ a ∈ n.attributes, IsName a.name
  values : ∀ a ∈ n.attributes, a.value.IsScripted
  binding : ∀ b ∈ n.binding, IsName b.variableName

/-- All numbers are finite, and the channels do not look like a curve. -/
def Value.IsStable : Value → Prop
  | .scalar s => s.isFinite
  | .multi m => (∀ s ∈ m.values, s.isFinite) ∧ curveOf? m.values = none
  | .animated c => ∀ k ∈ c.keyframes, k.value.isFinite
  | .block _ => True

/-- All values of the node are stable. -/
def Node.IsStable (n : Node) : Prop :=
  ∀ a ∈ n.attributes, a.value.IsStable

/-! ## Stable nodes are read back as they are -/

theorem mapM_eq_self {α : Type} {f : α → Option α} {as : List α} (h : ∀ a ∈ as, f a = some a) :
    as.mapM f = some as :=
  mapM_eq_some_iff.2 (List.forall₂_same.2 h)

theorem Scalar.readBack?_of_isFinite {s : Scalar} (h : s.isFinite) : s.readBack? = some s := by
  match s with
  | .bool _ => rfl
  | .int _ => rfl
  | .text _ => rfl
  | .float (.finite ..) => rfl

theorem Scalar.isNumber_of_isFinite {s : Scalar} (hn : s.isNumeric) (h : s.isFinite) :
    s.isNumber := by
  match s with
  | .int _ => rfl
  | .float (.finite ..) => rfl

/-- A frame is read back from its text. -/
theorem frame?_toString {frame : Int64} (h : IsFrameNumber frame) :
    (Scalar.text ("x" ++ toString frame.toInt)).frame? = some frame := by
  obtain ⟨n, hn⟩ := Int.eq_ofNat_of_zero_le h.1
  have hw : IsWhole n := by simpa [hn] using h.2
  have hl : n < 2 ^ 64 := by
    have := frame.toInt_lt
    omega
  have hr := Binary64.toInt?_read?_toString hw hl
  have ht : ("x" ++ toString frame.toInt).toList = 'x' :: Nat.toDigits 10 n := by
    rw [String.toList_append, toList_toString, hn, decide_eq_false (by omega)]
    simp [Decimal.minus]
  have hd : (Nat.toDigits 10 n).all Char.isDigit := List.all_eq_true.2 Decimal.isDigit_toDigits
  simp only [Scalar.frame?, ht]
  rw [if_pos ⟨Nat.toDigits_ne_nil, hd⟩, ← Nat.toString_eq_ofList_toDigits, hr, Option.bind_some,
    ← hn, Decimal.toInt64?_toInt]

theorem keyframesOf?_items {ks : List Keyframe}
    (h : ∀ k ∈ ks, IsFrameNumber k.frame ∧ k.value.isNumber) :
    keyframesOf? (ks.flatMap fun k => [.text ("x" ++ toString k.frame.toInt), k.value]) =
      some ks := by
  induction ks with
  | nil => rfl
  | cons k ks ih =>
      obtain ⟨hk, hks⟩ := List.forall_mem_cons.1 h
      rw [List.flatMap_cons, List.cons_append, List.singleton_append, keyframesOf?, if_pos hk.2,
        frame?_toString hk.1, ih hks]
      rfl

/-- A curve is read back from its items. -/
theorem curveOf?_items {c : Curve} (hne : c.keyframes ≠ [])
    (h : ∀ k ∈ c.keyframes, IsFrameNumber k.frame ∧ k.value.isNumber) :
    curveOf? c.items = some c := by
  have hk : (some c.keyframes).filter (!·.isEmpty) = some c.keyframes := by simp [hne]
  rw [Curve.items, curveOf?, keyframesOf?_items h, hk]
  rfl

theorem Value.readBack?_of_isStable {v : Value} (hs : v.IsScripted) (h : v.IsStable) :
    v.readBack? = some v := by
  match v with
  | .scalar s => rw [readBack?, Scalar.readBack?_of_isFinite h, Option.map_some]
  | .multi m =>
      obtain ⟨vs, -, rfl⟩ := hs
      obtain ⟨hf, hc⟩ := h
      rw [readBack?, bracedBack?, hc,
        mapM_eq_self fun s hs => Scalar.readBack?_of_isFinite (hf s hs),
        MultiChannel.values_ofValues]
      rfl
  | .animated c =>
      obtain ⟨hne, hks⟩ := hs
      have hn : ∀ k ∈ c.keyframes, IsFrameNumber k.frame ∧ k.value.isNumber := fun k hk =>
        ⟨(hks k hk).1, Scalar.isNumber_of_isFinite (hks k hk).2 (h k hk)⟩
      have hitems : ∀ s ∈ c.items, s.readBack? = some s := by
        refine List.forall_mem_cons.2 ⟨rfl, fun s hs => ?_⟩
        obtain ⟨k, hk, hs⟩ := List.mem_flatMap.1 hs
        simp only [List.mem_cons, List.not_mem_nil, or_false] at hs
        rcases hs with rfl | rfl
        · rfl
        · exact Scalar.readBack?_of_isFinite (h k hk)
      rw [readBack?, bracedBack?, mapM_eq_self hitems, curveOf?_items hne hn]
      rfl

theorem Node.readBack?_of_isStable {n : Node} (hs : n.IsScripted) (h : n.IsStable) :
    n.readBack? = some n := by
  have ha : n.attributes.mapM Attribute.readBack? = some n.attributes := mapM_eq_self fun a ha => by
    rw [Attribute.readBack?, Value.readBack?_of_isStable (hs.values a ha) (h a ha)]
    rfl
  rw [readBack?, ha]
  rfl

theorem Value.IsScripted.isWritable {v : Value} (h : v.IsScripted) : v.IsWritable := by
  match v with
  | .scalar _ => trivial
  | .multi _ => exact h
  | .animated _ => exact fun k hk => (h.2 k hk).1.1

theorem Node.IsScripted.isWritable {n : Node} (h : n.IsScripted) : n.IsWritable :=
  ⟨h.className, fun a ha => ⟨h.names a ha, (h.values a ha).isWritable⟩, h.binding⟩

/-- Stable nodes are read back as they are. -/
theorem parse_of_isStable {p : ScriptParser} (hp : p.IsScript) {nodes : List Node}
    (hs : ∀ n ∈ nodes, n.IsScripted) (h : ∀ n ∈ nodes, n.IsStable) :
    p.parse (Node.renderScript nodes) = .ok nodes :=
  (parse_renderScript hp (fun n hn => (hs n hn).isWritable) nodes).2
    (mapM_eq_self fun n hn => Node.readBack?_of_isStable (hs n hn) (h n hn))

/-! ## Nodes that are built -/

/-- The value is built of finite numbers and texts: a scalar, channels that do not begin with the
word of curves, or keyframes at frames up to `2 ^ 53`. -/
def Value.IsBuilt : Value → Prop
  | .scalar s => s.isFinite
  | .multi m => ∃ vs, vs ≠ [] ∧ vs.head? ≠ some (.text "curve") ∧ (∀ s ∈ vs, s.isFinite) ∧
      m = .ofValues vs
  | .animated c => c.keyframes ≠ [] ∧ ∀ k ∈ c.keyframes, 0 ≤ k.frame.toInt ∧
      k.frame.toInt ≤ 2 ^ 53 ∧ k.value.isNumber
  | .block _ => False

/-- The node is built of such values, and its names are identifiers. -/
structure Node.IsBuilt (n : Node) : Prop where
  className : IsIdentifier n.className
  names : ∀ a ∈ n.attributes, IsIdentifier a.name
  values : ∀ a ∈ n.attributes, a.value.IsBuilt
  binding : ∀ b ∈ n.binding, IsIdentifier b.variableName

theorem Scalar.isNumeric_of_isNumber {s : Scalar} (h : s.isNumber) : s.isNumeric ∧ s.isFinite := by
  match s with
  | .int _ => exact ⟨rfl, rfl⟩
  | .float (.finite ..) => exact ⟨rfl, rfl⟩

theorem curveOf?_eq_none {vs : List Scalar} (h : vs.head? ≠ some (.text "curve")) :
    curveOf? vs = none := by
  unfold curveOf?
  split
  · exact absurd rfl h
  · rfl

theorem Value.IsBuilt.isStable {v : Value} (h : v.IsBuilt) : v.IsScripted ∧ v.IsStable := by
  match v with
  | .scalar _ => exact ⟨trivial, h⟩
  | .multi _ =>
      obtain ⟨vs, hne, hc, hf, rfl⟩ := h
      refine ⟨⟨vs, hne, rfl⟩, ?_⟩
      rw [IsStable, MultiChannel.values_ofValues]
      exact ⟨hf, curveOf?_eq_none hc⟩
  | .animated c =>
      obtain ⟨hne, hks⟩ := h
      refine ⟨⟨hne, fun k hk => ?_⟩, fun k hk => (Scalar.isNumeric_of_isNumber (hks k hk).2.2).2⟩
      obtain ⟨h0, hl, hn⟩ := hks k hk
      exact ⟨⟨h0, Binary64.isWhole_of_le (by omega)⟩, (Scalar.isNumeric_of_isNumber hn).1⟩

theorem Node.IsBuilt.isScripted {n : Node} (h : n.IsBuilt) : n.IsScripted :=
  ⟨h.className.isName, fun a ha => (h.names a ha).isName, fun a ha => (h.values a ha).isStable.1,
    fun b hb => (h.binding b hb).isName⟩

/-- Nodes that are built of finite numbers and texts, with identifiers as names, are exactly what
the shipped parser reads from the script that is written of them. -/
theorem shipped_parse_renderScript : ∃ p, ScriptParser.shipped = .ok p ∧
    ∀ nodes : List Node, (∀ n ∈ nodes, n.IsBuilt) →
      p.parse (Node.renderScript nodes) = .ok nodes := by
  obtain ⟨p, hp, hs⟩ := ScriptParser.shipped_isScript
  exact ⟨p, hp, fun nodes h => parse_of_isStable hs (fun n hn => (h n hn).isScripted)
    fun n hn a ha => ((h n hn).values a ha).isStable.2⟩

/-- A node with a value of every kind. -/
def gradeNode : Node where
  className := "Grade"
  attributes := [
    ⟨"mix", .scalar (.float (.zero true))⟩,
    ⟨"label", .scalar (.text "x1 \"set\" \x7b")⟩,
    ⟨"white", .multi (.ofValues [.int (-3), .text "curve", .bool true])⟩,
    ⟨"size", .animated ⟨[⟨1, .int 5⟩, ⟨24, .float (.zero false)⟩]⟩⟩]
  binding := some (.assign "N0_" 18446744073709551615)

theorem shipped_parse_renderScript_grade : ∃ p, ScriptParser.shipped = .ok p ∧
    gradeNode.IsBuilt ∧ p.parse (Node.renderScript [gradeNode]) = .ok [gradeNode] := by
  obtain ⟨p, hp, h⟩ := shipped_parse_renderScript
  have hb : gradeNode.IsBuilt := by
    refine ⟨isIdentifier_of rfl rfl rfl, ?_, ?_, ?_⟩
    · simp only [gradeNode, List.forall_mem_cons]
      exact ⟨isIdentifier_of rfl rfl rfl, isIdentifier_of rfl rfl rfl, isIdentifier_of rfl rfl rfl,
        isIdentifier_of rfl rfl rfl, by simp⟩
    · simp only [gradeNode, List.forall_mem_cons]
      exact ⟨rfl, rfl, ⟨_, by simp, by simp, by decide, rfl⟩, ⟨by simp, by decide⟩, by simp⟩
    · intro b hb
      obtain rfl := Option.some.inj hb
      exact isIdentifier_of rfl rfl rfl
  exact ⟨p, hp, hb, h [gradeNode] (by simpa using hb)⟩

end NodeScript
