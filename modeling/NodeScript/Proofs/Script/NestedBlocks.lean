import NodeScript.Proofs.Script.Blocks
import NodeScript.Proofs.Script.NestingLimit
import NodeScript.Proofs.Script.Scalars
import NodeScript.Proofs.Token.Names

/-!
# The tokens of nested blocks

A block is items in braces. Where it ends is decided by its own tokens, and so is whether it can be
read as channels or as a curve: what is read as a block once is read so before any other tokens.
-/

namespace NodeScript

namespace Script

open Descent (Reads)

mutual

/-- The tokens of a block, with blocks and items at most so deep in one another. -/
inductive IsBlock : Nat → List Token → Prop
  | braces {b : Nat} {o cl : Token} {items : List (List Token)} (opening : o.text = "\x7b")
    (inner : ∀ item ∈ items, IsItem b item) (closing : cl.text = "\x7d") :
    IsBlock (b + 1) (o :: items.flatten ++ [cl])

/-- The tokens of a block or a scalar within a block. -/
inductive IsItem : Nat → List Token → Prop
  | block {b : Nat} {ts : List Token} : IsBlock b ts → IsItem (b + 1) ts
  | scalar {b : Nat} {a : Token} : isScalar a → IsItem (b + 2) [a]

end

variable {b b' : Nat} {ts ts' rest rest' : List Token}

theorem IsBlock.ne_nil (h : IsBlock b ts) : ts ≠ [] := by
  cases h
  exact List.cons_ne_nil _ _

theorem IsItem.ne_nil (h : IsItem b ts) : ts ≠ [] := by
  cases h with
  | block h => exact h.ne_nil
  | scalar => exact List.cons_ne_nil _ _

/-- Scalars in braces are a block. -/
theorem isBlock_scalars {o cl : Token} (ho : o.text = "\x7b") (hcl : cl.text = "\x7d")
    (h : ∀ t ∈ ts, isScalar t) : IsBlock 3 (o :: ts ++ [cl]) := by
  have items : ∀ item ∈ ts.map fun t => [t], IsItem 2 item := by
    simp only [List.forall_mem_map]
    exact fun t ht => .scalar (h t ht)
  have hb := IsBlock.braces ho items hcl
  rwa [← List.flatMap_def, List.flatMap_singleton'] at hb

variable (limit : Nat)

/-! ## Reading blocks -/

section Form

variable {item : Descent}

/-- The braces of a block hold items, or nothing. -/
theorem blockForm_eq_some {t : Tree} (h : blockForm limit item ts = some (t, rest)) :
    ∃ o mid trees cl, ts = o :: mid ∧ o.text = "\x7b" ∧ cl.text = "\x7d" ∧
      t.tokens = o :: trees.flatMap Tree.tokens ++ [cl] ∧
      (trees = [] ∧ mid = cl :: rest ∨
        ∃ inner, trees = [inner] ∧
          Descent.oneOrMore limit item mid = some (inner, cl :: rest)) := by
  obtain ⟨f, hf, h⟩ := List.exists_of_findSome?_eq_some h
  simp only [List.mem_cons, List.not_mem_nil, or_false] at hf
  rcases hf with rfl | rfl
  all_goals
    simp only [Descent.sequence_eq_some, Descent.all_cons_eq_some, Descent.all_nil_eq_some,
      Descent.one_eq_some, isText, beq_iff_eq] at h
  · obtain ⟨_, ⟨_, mid, _, ⟨o, rfl, ho, rfl⟩, ⟨inner, _, _, hi, ⟨_, _, _, ⟨cl, rfl, hcl, rfl⟩,
      ⟨rfl, rfl⟩, rfl⟩, rfl⟩, rfl⟩, rfl⟩ := h
    exact ⟨o, mid, [inner], cl, rfl, ho, hcl, by simp, .inr ⟨inner, rfl, hi⟩⟩
  · obtain ⟨_, ⟨_, _, _, ⟨o, rfl, ho, rfl⟩, ⟨_, _, _, ⟨cl, rfl, hcl, rfl⟩, ⟨rfl, rfl⟩, rfl⟩, rfl⟩,
      rfl⟩ := h
    exact ⟨o, _, [], cl, rfl, ho, hcl, by simp, .inl ⟨rfl, rfl⟩⟩

/-- Where items are read, blocks of them are. -/
theorem reads_blockForm (h : Reads item limit id (fun ts _ => IsItem b ts)
      fun ts t => t.tokens = ts)
    (hbegins : ∀ {ts t rest}, item ts = some (t, rest) → BeginsWithItem ts) :
    Reads (blockForm limit item) limit id (fun ts _ => IsBlock (b + 1) ts)
      fun ts t => t.tokens = ts where
  sound := fun hl hf => by
    obtain ⟨o, mid, trees, cl, rfl, ho, hcl, ht, ⟨rfl, rfl⟩ | ⟨inner, rfl, hi⟩⟩ :=
      blockForm_eq_some limit hf
    · exact ⟨[o, cl], rfl, .braces ho (List.forall_mem_nil _) hcl, ht⟩
    · simp only [List.length_cons] at hl
      obtain ⟨items, rfl, ⟨-, hitems, -⟩, trees, hts, rfl⟩ :=
        (h.oneOrMore fun h => h.ne_nil).sound (Nat.le_of_succ_le hl) hi
      refine ⟨o :: items.flatten ++ [cl], by simp [List.flatMap_id],
        .braces ho (Descent.inTurn_iff_forall.1 hitems) hcl, ?_⟩
      rw [ht]
      simp [Tree.flatMap_tokens (f := id) hts, List.flatMap_id]
  complete := fun ts rest hl hw => by
    cases hw with
    | @braces _ o cl items ho hitems hcl =>
      have stop : item (cl :: rest) = none := by
        match hs : item (cl :: rest) with
        | none => rfl
        | some (t, last) => exact absurd (hbegins hs) (not_beginsWithItem hcl rest)
      have opens : isText "\x7b" o := by simp [isText, ho]
      have closes : Descent.one (isText "\x7d") (cl :: rest) = some (.token cl, rest) := by
        simp [Descent.one, isText, hcl]
      have around : id (o :: items.flatten ++ [cl]) ++ rest =
          o :: (items.flatten ++ cl :: rest) := by
        simp
      rw [around] at hl ⊢
      simp only [blockForm, List.findSome?_cons, List.findSome?_nil,
        Descent.sequence_one_cons opens, Descent.all]
      by_cases hne : items = []
      · subst hne
        refine ⟨.list [.token o, .token cl], ?_, by simp⟩
        simp [Descent.oneOrMore, stop, closes, Tree.flatten]
      · simp only [List.length_cons] at hl
        obtain ⟨t, ht, trees, hts, rfl⟩ := (h.oneOrMore fun h => h.ne_nil).complete items
          (cl :: rest) (by simpa [List.flatMap_id] using Nat.le_of_succ_le hl)
          ⟨hne, Descent.inTurn_iff_forall.2 hitems, stop⟩
        rw [List.flatMap_id] at ht
        refine ⟨.list [.token o, (Tree.list trees).flatten, .token cl], ?_, ?_⟩
        · simp [ht, closes, Tree.flatten]
        · simp [Tree.flatMap_tokens (f := id) hts, List.flatMap_id]

end Form

theorem reads_nestedItem (h : Reads (readNested limit b "block") limit id (fun ts _ => IsBlock b ts)
      fun ts t => t.tokens = ts) :
    Reads (readNested limit (b + 1) "block_item") limit id (fun ts _ => IsItem (b + 1) ts)
      fun ts t => t.tokens = ts where
  sound := fun {ts t rest} hl hf => by
    rw [readNested_item_succ, itemForm, sequence_singleton] at hf
    obtain ⟨⟨t', rest'⟩, ha, he⟩ := Option.map_eq_some_iff.1 hf
    obtain ⟨rfl, rfl⟩ := Prod.mk.inj he
    simp only [Descent.alternation] at ha
    cases hb : readNested limit b "block" ts with
    | some taken =>
        rw [hb] at ha
        obtain rfl := Option.some.inj ha
        obtain ⟨taken, rfl, hw, ht⟩ := h.sound hl hb
        exact ⟨taken, rfl, .block hw, by simpa using ht⟩
    | none =>
        rw [hb] at ha
        cases b with
        | zero => cases ha
        | succ b =>
            rw [readNested_scalar] at ha
            obtain ⟨a, rfl, hs, rfl⟩ := Descent.one_eq_some.1 ha
            exact ⟨[a], rfl, .scalar hs, by simp⟩
  complete := fun ts rest hl hw => by
    rw [readNested_item_succ, itemForm, sequence_singleton]
    simp only [Descent.alternation]
    cases hw with
    | block hw =>
        obtain ⟨t, hb, ht⟩ := h.complete ts rest hl hw
        exact ⟨t.flatten, by rw [hb, Option.map_some], by simpa using ht⟩
    | @scalar b a ha =>
        have hb := readNested_block_eq_none limit ha (b + 1) rest
        refine ⟨.token a, ?_, by simp⟩
        simp [hb, readNested_scalar, Descent.one, ha, Tree.flatten]

/-- The rules for blocks and their items read exactly the blocks and items. -/
theorem reads_nested (b : Nat) :
    Reads (readNested limit b "block") limit id (fun ts _ => IsBlock b ts)
      (fun ts t => t.tokens = ts) ∧
    Reads (readNested limit b "block_item") limit id (fun ts _ => IsItem b ts)
      fun ts t => t.tokens = ts := by
  induction b with
  | zero =>
      constructor <;> exact
        { sound := fun _ h => by cases h
          complete := fun _ _ _ h => by cases h }
  | succ b ih =>
      refine ⟨?_, reads_nestedItem limit ih.1⟩
      rw [readNested_block_succ]
      exact reads_blockForm limit ih.2 (readNested_item_sound limit)

/-! ## Where blocks end -/

/-- Tokens begin with no more than one block. -/
theorem IsBlock.unique (h : IsBlock b ts) (h' : IsBlock b' ts') (he : ts ++ rest = ts' ++ rest') :
    ts = ts' := by
  obtain ⟨t, ht, -⟩ := (reads_nested (ts ++ rest).length b).1.complete ts rest (Nat.le_refl _) h
  obtain ⟨t', ht', -⟩ := (reads_nested (ts ++ rest).length b').1.complete ts' rest'
    (he ▸ Nat.le_refl _) h'
  have read := (readNested_block_mono _ (Nat.le_max_left b b')).1 _ _ ht
  have read' := (readNested_block_mono _ (Nat.le_max_right b b')).1 _ _ ht'
  obtain ⟨-, rfl⟩ : t = t' ∧ rest = rest' := by
    rw [show id ts ++ rest = id ts' ++ rest' from he, read'] at read
    simpa [eq_comm] using read
  exact List.append_cancel_right he

/-! ## Blocks and other values -/

theorem isScalar_of_isWord {t : Token} (h : isWord t) : isScalar t := by
  simp [isScalar, h]

theorem isScalar_of_isNumber {t : Token} (h : isNumber t) : isScalar t := by
  simp only [isNumber, Bool.or_eq_true] at h
  rcases h with h | h <;> simp [isScalar, h]

theorem isScalar_of_isFrame {t : Token} (h : isFrame t) : isScalar t := by
  have word : TokenRow.word.accepts (String.ofList t.text.toList) :=
    TokenTable.accepts_word_of_frame (Scalar.isFrame_iff.1 h)
  rw [String.ofList_toList] at word
  exact isScalar_of_isWord word

theorem isWord_curve {t : Token} (h : t.text = "curve") : isWord t := by
  have word : TokenRow.word.accepts t.text := h ▸ (isIdentifier_of rfl rfl rfl).isName.accepted
  exact word

theorem isBlock_curve {c : CurveText} (h : c.WellFormed) : IsBlock 3 c.tokens := by
  refine isBlock_scalars h.opening h.closing (List.forall_mem_cons.2 ⟨?_, fun t ht => ?_⟩)
  · exact isScalar_of_isWord (isWord_curve h.word)
  · obtain ⟨k, hk, ht⟩ := List.mem_flatMap.1 ht
    have hw := h.keyframes k hk
    simp only [KeyframeText.tokens, List.mem_cons, List.not_mem_nil, or_false] at ht
    rcases ht with rfl | rfl
    · exact isScalar_of_isFrame hw.frame
    · exact isScalar_of_isNumber hw.number

/-- A curve, in one pair of braces or in two, is a block. -/
theorem ValueText.IsAnimated.isBlock {v : ValueText} (h : v.IsAnimated) :
    ∃ b, IsBlock b v.tokens := by
  rcases h.cases with ⟨c, rfl, hc, -⟩ | ⟨o, c, cl, rfl, ho, hc, -, hcl⟩
  · exact ⟨3, isBlock_curve hc⟩
  · have inner : ∀ item ∈ [c.tokens], IsItem 4 item := by
      simpa using IsItem.block (isBlock_curve hc)
    have hb := IsBlock.braces ho inner hcl
    rw [List.flatten_singleton] at hb
    exact ⟨5, hb⟩

/-- Channels in braces are a block. -/
theorem ValueText.IsRun.isBlock {v : ValueText} (h : v.IsRun)
    (ho : BeginsWithBrace (v.tokens ++ rest)) : ∃ b, IsBlock b v.tokens := by
  obtain ⟨o, items, cl, rfl, hd, -, hi⟩ := h.exists
  obtain ⟨_, _, he, ho⟩ := ho
  obtain ⟨rfl, -⟩ := List.cons.inj he
  refine ⟨3, isBlock_scalars ho ?_ hi⟩
  simpa [Builder.areDelimiters, ho] using hd

/-- The tokens of a block that are no channels and no curve. -/
structure IsBlockValue (b : Nat) (ts : List Token) : Prop where
  block : IsBlock b ts
  not_run : ∀ v : ValueText, v.IsRun → v.tokens ≠ ts
  not_animated : ∀ v : ValueText, v.IsAnimated → v.tokens ≠ ts

theorem IsBlock.beginsWithBrace (h : IsBlock b ts) : BeginsWithBrace (ts ++ rest) := by
  cases h with
  | braces ho => exact ⟨_, _, rfl, ho⟩

/-- No value of scripts without nested blocks is a block. -/
theorem valueOf_tree_ne_block (v : ValueText) (text : String) :
    Builder.valueOf v.tree.flatten ≠ .ok (.block text) := by
  rw [v.flatten_tree, valueOf_tree]
  intro h
  cases v with
  | single t => cases hc : t.cast <;> simp [ValueText.value, hc, Except.map, Except.mapError] at h
  | run o items cl =>
      cases hc : Builder.castAll items <;>
        simp [ValueText.value, hc, Except.map, Except.mapError] at h
  | curve c | wrapped _ c _ =>
      cases hc : Builder.castPairs c.pairs <;>
        simp [ValueText.value, hc, Except.map, Except.mapError] at h

/-- A value that is a block has been read by the rule for blocks, after those for curves and for
channels have read nothing. -/
theorem valueForm_eq_block {block : Descent} {v : Tree} {text : String}
    (hl : ts.length ≤ limit) (h : valueForm limit block ts = some (v, rest))
    (hv : Builder.valueOf v = .ok (.block text)) :
    read limit 4 "animated_value" ts = none ∧ read limit 2 "multi_value" ts = none ∧
      ∃ t, block ts = some (t, rest) ∧ t.flatten = v := by
  have other {w : ValueText} {rest' : List Token}
      (he : some (w.tree.flatten, rest') = some (v, rest)) : False := by
    obtain ⟨rfl, -⟩ := Prod.mk.inj (Option.some.inj he)
    exact valueOf_tree_ne_block w text hv
  simp only [valueForm, List.findSome?_cons, List.findSome?_nil, sequence_singleton] at h
  cases ha : read limit 4 "animated_value" ts with
  | some taken =>
      obtain ⟨t, rest'⟩ := taken
      obtain ⟨w, -, -, rfl⟩ := (reads_animatedValue limit 0).sound hl ha
      rw [ha] at h
      exact (other h).elim
  | none =>
      cases hm : read limit 2 "multi_value" ts with
      | some taken =>
          obtain ⟨t, rest'⟩ := taken
          obtain ⟨w, -, -, rfl⟩ := (reads_multiValue limit 0).sound hl hm
          rw [ha, hm] at h
          exact (other h).elim
      | none =>
          cases hb : block ts with
          | some taken =>
              obtain ⟨t, rest'⟩ := taken
              rw [ha, hm, hb] at h
              obtain ⟨rfl, rfl⟩ := Prod.mk.inj (Option.some.inj h)
              exact ⟨rfl, rfl, t, rfl, rfl⟩
          | none =>
              cases hs : Descent.one isScalar ts with
              | some taken =>
                  obtain ⟨t, rest'⟩ := taken
                  obtain ⟨a, -, -, rfl⟩ := Descent.one_eq_some.1 hs
                  rw [ha, hm, hb, hs] at h
                  exact (other (w := .single a) h).elim
              | none =>
                  rw [ha, hm, hb, hs] at h
                  cases h

/-- The values of knobs that are blocks are the blocks that are no channels and no curve, and their
texts are those of the tokens. -/
theorem valueForm_sound {v : Tree} {text : String} (hl : ts.length ≤ limit)
    (h : valueForm limit (readNested limit b "block") ts = some (v, rest))
    (hv : Builder.valueOf v = .ok (.block text)) :
    ∃ taken, ts = taken ++ rest ∧ IsBlockValue b taken ∧
      text = Builder.joinBlock (taken.map Token.text) := by
  obtain ⟨ha, hm, t, hb, rfl⟩ := valueForm_eq_block limit hl h hv
  obtain ⟨taken, rfl, hw, ht⟩ := (reads_nested limit b).1.sound hl hb
  refine ⟨taken, rfl, ⟨hw, fun w hr he => ?_, fun w hr he => ?_⟩, ?_⟩
  · obtain ⟨_, hread, -⟩ := (reads_multiValue limit 0).complete w rest (by rwa [he]) hr
    rw [he] at hread
    cases hm.symm.trans hread
  · obtain ⟨_, hread, -⟩ := (reads_animatedValue limit 0).complete w rest (by rwa [he]) hr
    rw [he] at hread
    cases ha.symm.trans hread
  · rw [Builder.valueOf_eq_block hv, Tree.tokens_flatten, ht]

/-- Such a block is read before any other tokens. -/
theorem valueForm_complete (h : IsBlockValue b ts) (hl : (ts ++ rest).length ≤ limit) :
    ∃ v, valueForm limit (readNested limit b "block") (ts ++ rest) = some (v, rest) ∧
      Builder.valueOf v = .ok (.block (Builder.joinBlock (ts.map Token.text))) := by
  obtain ⟨t, hb, ht⟩ : ∃ t, readNested limit b "block" (ts ++ rest) = some (t, rest) ∧
      t.tokens = ts := (reads_nested limit b).1.complete ts rest hl h.block
  obtain ⟨-, items, rfl, hflat⟩ := readNested_block limit b hb
  have ha : read limit 4 "animated_value" (ts ++ rest) = none :=
    (reads_animatedValue limit 0).eq_none hl fun w rest' he hw => by
      obtain ⟨_, hblock⟩ := hw.isBlock
      exact h.not_animated w hw (hblock.unique h.block he.symm)
  have hm : read limit 2 "multi_value" (ts ++ rest) = none :=
    (reads_multiValue limit 0).eq_none hl fun w rest' he hw => by
      obtain ⟨_, hblock⟩ := hw.isBlock (he ▸ h.block.beginsWithBrace)
      exact h.not_run w hw (hblock.unique h.block he.symm)
  refine ⟨.list items, ?_, ?_⟩
  · simp [valueForm, sequence_singleton, ha, hm, hb, hflat]
  · rw [← ht]
    rfl

end Script

end NodeScript
