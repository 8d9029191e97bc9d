import NodeScript.Node.Basic
import NodeScript.Proofs.Script.Scalars

/-!
# Scripts as they are written

The kinds of the tokens of a written script. Nodes whose names are words of their own are written
as a class and knobs in braces, with the stack command behind them.
-/

namespace NodeScript

open TokenTable

/-! ## Lists of results -/

section Lists

variable {α β : Type} {f : α → Option β}

theorem mapM_cons_eq (a : α) (as : List α) :
    (a :: as).mapM f = (f a).bind fun b => (as.mapM f).map (b :: ·) := by
  rw [List.mapM_cons]
  cases f a <;> cases as.mapM f <;> rfl

theorem mapM_eq_some_iff {as : List α} {bs : List β} :
    as.mapM f = some bs ↔ List.Forall₂ (fun a b => f a = some b) as bs := by
  induction as generalizing bs with
  | nil =>
      rw [List.mapM_nil, List.forall₂_nil_left_iff]
      exact ⟨fun h => (Option.some.inj h).symm, fun h => h ▸ rfl⟩
  | cons a as ih =>
      rw [mapM_cons_eq, List.forall₂_cons_left_iff]
      simp only [Option.bind_eq_some_iff, Option.map_eq_some_iff, ih]
      constructor
      · rintro ⟨b, hb, bs, hbs, rfl⟩
        exact ⟨b, bs, hb, hbs, rfl⟩
      · rintro ⟨b, bs, hb, hbs, rfl⟩
        exact ⟨b, hb, bs, hbs, rfl⟩

end Lists

/-! ## What can be written -/

/-- The scalars that a curve is written as, between braces. -/
def Curve.items (c : Curve) : List Scalar :=
  .text "curve" :: c.keyframes.flatMap fun k => [.text ("x" ++ toString k.frame.toInt), k.value]

/-- The value has a form of its own in scripts: there is at least one channel, and no frame has a
minus. -/
def Value.IsWritable : Value → Prop
  | .scalar _ => True
  | .multi m => ∃ vs, vs ≠ [] ∧ m = .ofValues vs
  | .animated c => ∀ k ∈ c.keyframes, 0 ≤ k.frame.toInt
  | .block _ => False

structure Attribute.IsWritable (a : Attribute) : Prop where
  name : IsName a.name
  value : a.value.IsWritable

/-- All names are words, and all values have forms of their own. -/
structure Node.IsWritable (n : Node) : Prop where
  className : IsName n.className
  attributes : ∀ a ∈ n.attributes, a.IsWritable
  binding : ∀ b ∈ n.binding, IsName b.variableName

/-! ## Kinds -/

/-- The kinds of scalars in braces. -/
def bracedKinds? (vs : List Scalar) : Option (List (String × String)) :=
  (vs.mapM Scalar.kind?).map fun ks => ("OPEN_BRACE", "\x7b") :: (ks ++ [("CLOSE_BRACE", "\x7d")])

def Value.kinds? : Value → Option (List (String × String))
  | .scalar s => s.kind?.map fun k => [k]
  | .multi m => bracedKinds? m.values
  | .animated c => bracedKinds? c.items
  | .block _ => none

def Attribute.kinds? (a : Attribute) : Option (List (String × String)) :=
  a.value.kinds?.map (wordKind a.name :: ·)

def Binding.kinds : Binding → List (String × String)
  | .assign name index => [wordKind "set", wordKind name, ("OPEN_BRACKET", "["), wordKind "stack",
      ("INT", toString index.toNat), ("CLOSE_BRACKET", "]")]
  | .recall name => [wordKind "push", ("TCL_VAR", "$"), wordKind name]

/-- The kinds of the tokens that a node is written as. -/
def Node.kinds? (n : Node) : Option (List (String × String)) :=
  (n.attributes.mapM Attribute.kinds?).map fun kss =>
    wordKind n.className :: ("OPEN_BRACE", "\x7b") ::
      (kss.flatten ++ ("CLOSE_BRACE", "\x7d") :: (n.binding.map Binding.kinds).getD [])

/-! ## Spelling -/

theorem filter_openBrace : script.rows.filter (·.begins '\x7b') =
    [TokenRow.mark "OPEN_BRACE" "\\\x7b" '\x7b'] :=
  rfl

theorem filter_closeBrace : script.rows.filter (·.begins '\x7d') =
    [TokenRow.mark "CLOSE_BRACE" "\\\x7d" '\x7d'] :=
  rfl

theorem filter_openBracket : script.rows.filter (·.begins '[') =
    [TokenRow.mark "OPEN_BRACKET" "\\[" '['] :=
  rfl

theorem filter_closeBracket : script.rows.filter (·.begins ']') =
    [TokenRow.mark "CLOSE_BRACKET" "\\]" ']'] :=
  rfl

theorem filter_variable : script.rows.filter (·.begins '$') =
    [TokenRow.mark "TCL_VAR" "\\$" '$'] :=
  rfl

/-- Scalars with blanks between them. -/
theorem spells_items (vs : List Scalar) :
    Spells (String.intercalate " " (vs.map Scalar.render)).toList (vs.mapM Scalar.kind?) := by
  match vs with
  | [] => exact spells_nil
  | [v] =>
      have h := v.spells
      rw [mapM_cons_eq]
      cases hk : v.kind? <;> simpa [hk] using h
  | v :: v' :: vs =>
      have hb := (spells_items (v' :: vs)).blank (x := ' ') (by decide)
      have h := v.spells.append (stops_cons (by decide) _) hb
      rw [mapM_cons_eq, List.map_cons, List.map_cons, String.intercalate_cons_cons,
        ← List.map_cons]
      generalize (v' :: vs).mapM Scalar.kind? = ks at h
      generalize String.intercalate " " ((v' :: vs).map Scalar.render) = text at h ⊢
      cases hk : v.kind? <;> simpa [hk] using h

theorem spells_braced (vs : List Scalar) :
    Spells ("\x7b" ++ String.intercalate " " (vs.map Scalar.render) ++ "\x7d").toList
      (bracedKinds? vs) := by
  have hc : Spells ['\x7d'] (some [("CLOSE_BRACE", "\x7d")]) := spells_nil.mark filter_closeBrace
  have h := ((spells_items vs).append (stops_cons (by decide) _) hc).mark filter_openBrace
  rw [bracedKinds?]
  generalize vs.mapM Scalar.kind? = ks at h ⊢
  cases ks <;> simpa using h

theorem render_frame {frame : Int64} (h : 0 ≤ frame.toInt) :
    (Scalar.text ("x" ++ toString frame.toInt)).render = "x" ++ toString frame.toInt := by
  have ht : "x" ++ toString frame.toInt =
      String.ofList ('x' :: Nat.toDigits 10 frame.toInt.natAbs) := by
    rw [← String.toList_inj, String.toList_append, toList_toString, decide_eq_false (by omega)]
    simp [Decimal.minus]
  have hb : Scalar.isBare ("x" ++ toString frame.toInt) :=
    ht ▸ Scalar.isBare_frame Decimal.isDigit_toDigits
  rw [Scalar.render, if_pos hb]

theorem intercalate_keyframes (first : String) {ks : List Keyframe}
    (h : ∀ k ∈ ks, 0 ≤ k.frame.toInt) :
    String.intercalate " " (first :: (ks.flatMap fun k =>
        [.text ("x" ++ toString k.frame.toInt), k.value]).map Scalar.render) =
      first ++ String.join (ks.map Value.render.renderKeyframe) := by
  induction ks generalizing first with
  | nil => simp
  | cons k ks ih =>
      obtain ⟨hk, hks⟩ := List.forall_mem_cons.1 h
      simp only [List.flatMap_cons, List.map_cons, List.cons_append, List.nil_append,
        String.intercalate_cons_cons, ih _ hks, render_frame hk, String.join_cons,
        Value.render.renderKeyframe]
      simp [String.append_assoc, ← String.toList_inj]

/-- A curve is written as its items. -/
theorem render_animated {c : Curve} (h : (Value.animated c).IsWritable) :
    (Value.animated c).render =
      "\x7b" ++ String.intercalate " " (c.items.map Scalar.render) ++ "\x7d" := by
  have hc : (Scalar.text "curve").render = "curve" := by
    rw [Scalar.render, if_pos (by decide)]
  rw [Curve.items, List.map_cons, hc, intercalate_keyframes _ h, Value.render,
    ← String.append_assoc]
  rfl

theorem Value.spells {v : Value} (h : v.IsWritable) : Spells v.render.toList v.kinds? := by
  match v with
  | .scalar s => exact s.spells
  | .multi m => exact spells_braced m.values
  | .animated c =>
      rw [render_animated h]
      exact spells_braced c.items

theorem spells_index (index : UInt64) :
    Spells (toString index.toNat).toList (some [("INT", toString index.toNat)]) := by
  rw [Nat.toString_eq_ofList_toDigits, String.toList_ofList]
  exact spells_of_firstScan? TokenRow.int Nat.toDigits_ne_nil rfl (by decide)
    fun rest hr => firstScan?_int false Nat.toDigits_ne_nil Decimal.isDigit_toDigits hr

theorem Binding.spells {b : Binding} (h : IsName b.variableName) :
    Spells b.render.toList (some b.kinds) := by
  match b with
  | .assign name index =>
      have hset : Spells "set".toList _ := (isIdentifier_of rfl rfl rfl).isName.spells
      have hstack : Spells "stack".toList _ := (isIdentifier_of rfl rfl rfl).isName.spells
      have hclose : Spells [']'] _ := spells_nil.mark filter_closeBracket
      have hindex := ((spells_index index).append (stops_cons (by decide) _) hclose).blank
        (x := ' ') (by decide)
      have hopen := (hstack.append (stops_cons (by decide) _) hindex).mark filter_openBracket
      have hname := h.spells.append (stops_cons (by decide) _) (hopen.blank (x := ' ') (by decide))
      have := hset.append (stops_cons (by decide) _) (hname.blank (x := ' ') (by decide))
      simpa [render, kinds, variableName] using this
  | .recall name =>
      have hpush : Spells "push".toList _ := (isIdentifier_of rfl rfl rfl).isName.spells
      have hname := (h.spells.mark filter_variable).blank (x := ' ') (by decide)
      have := hpush.append (stops_cons (by decide) _) hname
      simpa [render, kinds, variableName] using this

theorem Attribute.spells {a : Attribute} (h : a.IsWritable) :
    Spells (Node.render.renderAttribute a).toList a.kinds? := by
  have hv := Value.spells h.value
  have hn := h.name.spells
  have he : Spells ['\n'] (some []) := spells_nil.blank (by decide)
  have hv' := (hv.append (stops_cons (by decide) _) he).blank (x := ' ') (by decide)
  have := (hn.append (stops_cons (by decide) _) hv').blank (x := ' ') (by decide)
  rw [kinds?]
  generalize a.value.kinds? = ks at this ⊢
  cases ks <;> simpa [Node.render.renderAttribute] using this

theorem stops_renderAttribute (a : Attribute) : Stops (Node.render.renderAttribute a).toList := by
  simp [Node.render.renderAttribute, Stops]

theorem spells_attributes {as : List Attribute} (h : ∀ a ∈ as, a.IsWritable) :
    Stops (String.join (as.map Node.render.renderAttribute)).toList ∧
      Spells (String.join (as.map Node.render.renderAttribute)).toList
        ((as.mapM Attribute.kinds?).map List.flatten) := by
  induction as with
  | nil => exact ⟨stops_nil, spells_nil⟩
  | cons a as ih =>
      obtain ⟨ha, has⟩ := List.forall_mem_cons.1 h
      obtain ⟨hs, hk⟩ := ih has
      have := (Attribute.spells ha).append hs hk
      rw [mapM_cons_eq, List.map_cons, String.join_cons, String.toList_append]
      refine ⟨(stops_renderAttribute a).append hs, ?_⟩
      generalize a.kinds? = ks at this ⊢
      generalize as.mapM Attribute.kinds? = kss at this ⊢
      cases ks <;> cases kss <;> simpa using this

/-- The stack command behind a node. -/
theorem spells_binding {binding : Option Binding} (h : ∀ b ∈ binding, IsName b.variableName) :
    Spells (binding.elim [] ('\n' :: ·.render.toList))
      (some ((binding.map Binding.kinds).getD [])) := by
  cases binding with
  | none => exact spells_nil
  | some b => exact (Binding.spells (h b rfl)).blank (by decide)

theorem Node.spells {n : Node} (h : n.IsWritable) : Spells n.render.toList n.kinds? := by
  have hb := (spells_binding h.binding).mark filter_closeBrace
  have ha := ((spells_attributes h.attributes).2.append (stops_cons (by decide) _) hb).blank
    (x := '\n') (by decide)
  have ho := (ha.mark filter_openBrace).blank (x := ' ') (by decide)
  have hn := h.className.spells.append (stops_cons (by decide) _) ho
  rw [kinds?, render]
  generalize n.attributes.mapM Attribute.kinds? = ks at hn ⊢
  generalize n.binding = binding at hn ⊢
  cases ks <;> cases binding <;> simpa using hn

/-- The tokens of a written script are those of its nodes. -/
theorem kinds?_renderScript {nodes : List Node} (h : ∀ n ∈ nodes, n.IsWritable) :
    script.kinds? (Node.renderScript nodes).toList = (nodes.mapM Node.kinds?).map List.flatten := by
  induction nodes with
  | nil => rfl
  | cons n nodes ih =>
      obtain ⟨hn, hns⟩ := List.forall_mem_cons.1 h
      have hs := Node.spells hn ('\n' :: (Node.renderScript nodes).toList)
        (stops_cons (by decide) _)
      rw [kinds?_blank (by decide), ih hns] at hs
      have ht : (Node.renderScript (n :: nodes)).toList =
          n.render.toList ++ '\n' :: (Node.renderScript nodes).toList := by
        simp [Node.renderScript]
      rw [ht, hs, mapM_cons_eq]
      cases n.kinds? <;> cases nodes.mapM Node.kinds? <;> simp

end NodeScript
