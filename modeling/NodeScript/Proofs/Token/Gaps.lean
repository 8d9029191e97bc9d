import NodeScript.Proofs.Pattern.Within
import NodeScript.Proofs.Token.Joining

/-!
# Gaps between tokens

White space and comments make no tokens that a grammar sees, and a token that something follows is
the same token before a gap. So the tokens of a text do not depend on its layout: with other gaps,
also where there were none, it is cut into tokens of the same names and texts.
-/

namespace NodeScript

namespace Pattern

/-- Whether only characters of ASCII are read, when it is easily told. -/
def readsAscii : Pattern → Bool
  | .empty => true
  | .one set => set.isAscii
  | .anchor _ => true
  | .seq first second => first.readsAscii && second.readsAscii
  | .alt first second => first.readsAscii && second.readsAscii
  | .rep body _ _ _ => body.readsAscii
  | .group _ body => body.readsAscii

theorem toNat_lt_of_reads {p : Pattern} (h : p.readsAscii) {x : Char} (hx : p.reads x) :
    x.toNat < 128 := by
  induction p with
  | empty => cases hx
  | one set => exact CharSet.toNat_lt_of_isAscii h hx
  | anchor a => cases hx
  | seq first second ih ih' =>
      obtain ⟨hf, hs⟩ := Bool.and_eq_true_iff.1 h
      exact (Bool.or_eq_true_iff.1 hx).elim (ih hf) (ih' hs)
  | alt first second ih ih' =>
      obtain ⟨hf, hs⟩ := Bool.and_eq_true_iff.1 h
      exact (Bool.or_eq_true_iff.1 hx).elim (ih hf) (ih' hs)
  | rep body least extra greedy ih => exact ih h hx
  | group _ body ih => exact ih h hx

/-- What is not read of ASCII is not read at all. -/
theorem reads_eq_false {p : Pattern} (ha : p.readsAscii) {P : Char → Prop}
    (h : ∀ n < 128, P (Char.ofNat n) → p.reads (Char.ofNat n) = false) {x : Char} (hx : P x) :
    p.reads x = false :=
  Bool.eq_false_iff.2 fun hr => by
    have unread := forall_ascii (P := fun x => P x → p.reads x = false) h
      (toNat_lt_of_reads ha hr) hx
    rw [unread] at hr
    cases hr

end Pattern

namespace TokenRow

open Pattern

theorem scan?_ofParts {name pattern tag : String} {parts : List Pattern} (rest : List Char) :
    (ofParts name pattern tag parts).scan? rest = (endsAll parts (.start rest)).head?.bind fun c =>
      if 0 < c.offset then some (rest.take c.offset) else none := by
  rw [scan?, find?_scanner]
  cases (endsAll parts (.start rest)).head? <;> rfl

/-- What a row takes within a text that goes on, it takes of the text alone. -/
theorem scan?_within {name pattern tag : String} {parts : List Pattern} {words : Bool}
    {text after : List Char} (h : (ofParts name pattern tag parts).scanner.pattern.isLocal words)
    (hw : words = true → after.head?.any Text.isWordChar = false)
    (ht : ∀ m ∈ (ofParts name pattern tag parts).scan? (text ++ after), m.length ≤ text.length) :
    (ofParts name pattern tag parts).scan? text =
      (ofParts name pattern tag parts).scan? (text ++ after) := by
  have hs : within after (endsAll parts (.start (text ++ after))) =
      (endsAll parts (.start text)).map (·.followedBy after) := by
    rw [← ends_concat_textStart, ← ends_concat_textStart]
    exact (stays_ends hw _ h).within (.start text)
  rw [scan?_ofParts] at ht ⊢
  rw [scan?_ofParts]
  match he : endsAll parts (.start (text ++ after)) with
  | [] =>
      have nowhere : endsAll parts (.start text) = [] := by simpa [he, within] using hs
      rw [nowhere]
      rfl
  | c :: cs =>
      obtain ⟨taken, hr, hc, -⟩ := endsAll_follow (he ▸ List.mem_cons_self)
      have hlen : text.length + after.length = c.offset + c.rest.length := by
        have := congrArg List.length hr
        rw [hc]
        simpa using this
      -- the first end is within the text, so that it is the first end in the text alone
      have inside : c.offset ≤ text.length := by
        by_cases hpos : 0 < c.offset
        · have htaken := ht ((text ++ after).take c.offset) (by rw [he]; simp [hpos])
          rw [List.length_take, List.length_append] at htaken
          omega
        · omega
      have kept : after.length ≤ c.rest.length := by omega
      rw [he, within, List.filter_cons_of_pos (by simpa using kept)] at hs
      match he' : endsAll parts (.start text) with
      | [] => simp [he'] at hs
      | c' :: cs' =>
          obtain ⟨rfl, -⟩ : c = c'.followedBy after ∧ _ := by simpa [he'] using hs
          simp only [List.head?_cons, Option.bind_some]
          rw [List.take_append_of_le_length inside]
          rfl

end TokenRow

namespace TokenTable

open Pattern TokenRow

variable {row : TokenRow} {x : Char} {text tail after rest : List Char}

/-! ## Tokens before gaps -/

/-- The rest is empty or begins with a gap. -/
def Separates (rest : List Char) : Prop :=
  ∀ y ∈ rest.head?, Text.isBlank y ∨ y = '#'

/-- A token that a grammar sees, and that is no string, begins so. -/
def BeginsPlain (x : Char) : Prop :=
  ¬Text.isBlank x ∧ x ≠ '#' ∧ x ≠ '"'

instance (x : Char) : Decidable (BeginsPlain x) :=
  inferInstanceAs (Decidable (_ ∧ _ ∧ _))

/-- Beyond ASCII only blanks begin tokens. -/
theorem BeginsPlain.toNat_lt (hp : BeginsPlain x) (h : (script.firstScan? (x :: rest)).isSome) :
    x.toNat < 128 :=
  Decidable.byContradiction fun hx => hp.1 (isBlank_of_firstScan? hx h)

/-- Rows that can begin so are local, and do not read what a gap begins with. -/
theorem isLocal_of_begins (hx : x.toNat < 128) (hp : BeginsPlain x) (hrow : row ∈ script.rows)
    (hb : row.begins x) : row.scanner.pattern.isLocal (CharSet.wordHead.accepts x) ∧
      row.scanner.pattern.readsAscii ∧
        ∀ n < 128, Text.isBlank (Char.ofNat n) ∨ Char.ofNat n = '#' →
          row.scanner.pattern.reads (Char.ofNat n) = false := by
  have plain : ∀ row ∈ script.rows, row.name ∉ ["WHITESPACE", "COMMENT", "STRING"] →
      row.scanner.pattern.readsAscii ∧
        ∀ n < 128, Text.isBlank (Char.ofNat n) ∨ Char.ofNat n = '#' →
          row.scanner.pattern.reads (Char.ofNat n) = false := by
    decide
  have seen : ∀ row ∈ script.rows, row.begins x →
      row.name ∉ ["WHITESPACE", "COMMENT", "STRING"] := by
    refine forall_ascii (P := fun x => BeginsPlain x → ∀ row ∈ script.rows, row.begins x →
      row.name ∉ ["WHITESPACE", "COMMENT", "STRING"]) ?_ hx hp
    decide
  have isLocal : ∀ row ∈ script.rows, row.begins x →
      row.scanner.pattern.isLocal (CharSet.wordHead.accepts x) := by
    refine forall_ascii (P := fun x => ∀ row ∈ script.rows, row.begins x →
      row.scanner.pattern.isLocal (CharSet.wordHead.accepts x)) ?_ hx
    decide
  exact ⟨isLocal row hrow hb, plain row hrow (seen row hrow hb)⟩

theorem not_isWordChar_of_separates (h : Separates rest) :
    rest.head?.any Text.isWordChar = false := by
  cases hr : rest.head? with
  | none => rfl
  | some y =>
      rcases h y hr with hy | rfl
      · exact Text.isWordChar_of_isBlank hy
      · decide

/-- A row takes the same of a text before what goes on no word and is not read by the row. -/
theorem scan?_before {words : Bool} (hrow : row ∈ script.rows)
    (hw : rest.head?.any Text.isWordChar = false)
    (h : row.begins x → row.scanner.pattern.isLocal words ∧
      ∀ y ∈ rest.head?, row.scanner.pattern.reads y = false) :
    row.scan? (x :: tail ++ rest) = row.scan? (x :: tail) := by
  by_cases hb : row.begins x
  · obtain ⟨hl, unread⟩ := h hb
    cases rest with
    | nil => rw [List.append_nil]
    | cons y rest =>
        obtain ⟨name, pattern, tag, parts, rfl⟩ := script_rows hrow
        exact scan?_followedBy hw (stopsAt_of_isLocal _ hl (unread y rfl)) _ _
  · have hb : row.begins x = false := Bool.of_not_eq_true hb
    rw [List.cons_append, scan?_eq_none hrow hb, scan?_eq_none hrow hb]

/-- A row takes the same of a text before a gap. -/
theorem scan?_separated (hx : x.toNat < 128) (hp : BeginsPlain x) (hrow : row ∈ script.rows)
    (hr : Separates rest) : row.scan? (x :: tail ++ rest) = row.scan? (x :: tail) :=
  scan?_before hrow (not_isWordChar_of_separates hr) fun hb => by
    obtain ⟨hl, ascii, unread⟩ := isLocal_of_begins hx hp hrow hb
    exact ⟨hl, fun y hy =>
      reads_eq_false (P := fun y => Text.isBlank y ∨ y = '#') ascii unread (hr y hy)⟩

/-- No word goes on after a token that is like a word. -/
theorem not_word_of_firstScan? (hx : CharSet.wordHead.accepts x)
    (h : script.firstScan? (x :: tail ++ after) = some (row, x :: tail))
    (ha : after ≠ [] → (script.firstScan? after).isSome) :
    after.head?.any Text.isWordChar = false := by
  have shaped {name pattern tag : String} {parts : List Pattern} {Shape : List Char → Prop}
      (he : EndsWords parts Shape)
      (hs : (ofParts name pattern tag parts).scan? (x :: (tail ++ after)) = some (x :: tail)) :
      after.head?.any Text.isWordChar = false := by
    obtain ⟨-, rest, ht, hr⟩ := shape_of_scan? he hs
    have ht : (x :: tail) ++ after = (x :: tail) ++ rest := ht
    obtain rfl : after = rest := List.append_cancel_left ht
    exact hr
  rcases scan?_of_firstScan? hx h with hs | hp | hf | ⟨-, -, -, hw⟩
  · exact shaped endsWords_set hs
  · exact shaped endsWords_push hp
  · exact shaped endsWords_frame hf
  · have ht : ∀ y ∈ tail, CharSet.wordTail.accepts y := by
      have whole : (tail ++ after).takeWhile CharSet.wordTail.accepts = tail :=
        (List.cons.inj (Option.some.inj ((scan?_word hx _).symm.trans hw))).2
      rw [← whole]
      exact List.all_eq_true.1 List.all_takeWhile
    exact not_word_of_scan? hx ht hw ha

/-- A token is the same without what follows it. -/
theorem firstScan?_alone (hp : BeginsPlain x)
    (h : script.firstScan? (x :: tail ++ after) = some (row, x :: tail))
    (ha : after ≠ [] → (script.firstScan? after).isSome) :
    script.firstScan? (x :: tail) = some (row, x :: tail) := by
  have hx : x.toNat < 128 := hp.toNat_lt (Option.isSome_of_eq_some h)
  have hw : CharSet.wordHead.accepts x = true → after.head?.any Text.isWordChar = false :=
    fun hx => not_word_of_firstScan? hx h ha
  have same : ∀ r ∈ script.rows,
      (∀ m ∈ r.scan? (x :: tail ++ after), m.length ≤ (x :: tail).length) →
        r.scan? (x :: tail) = r.scan? (x :: tail ++ after) := by
    intro r hr hm
    by_cases hb : r.begins x
    · have hl := (isLocal_of_begins hx hp hr hb).1
      obtain ⟨name, pattern, tag, parts, rfl⟩ := script_rows hr
      exact scan?_within hl hw hm
    · have hb : r.begins x = false := Bool.of_not_eq_true hb
      rw [List.cons_append, scan?_eq_none hr hb, scan?_eq_none hr hb]
  obtain ⟨before, r, others, hrows, hs, hbefore⟩ := List.findSome?_eq_some_iff.1 h
  obtain ⟨m, hm, he⟩ := Option.map_eq_some_iff.1 hs
  obtain ⟨rfl, rfl⟩ := Prod.mk.inj he
  refine List.findSome?_eq_some_iff.2 ⟨before, r, others, hrows, ?_, fun r' hr' => ?_⟩
  · rw [same r (by simp [hrows]) (by rw [hm]; simp), hm]
    rfl
  · have nothing : r'.scan? (x :: tail ++ after) = none := by simpa using hbefore r' hr'
    rw [same r' (by simp [hrows, hr']) (by rw [nothing]; simp), nothing]
    rfl

/-- A token that a grammar sees is the same before a gap, whatever it was followed by. -/
theorem firstScan?_separated (h : script.firstScan? (text ++ after) = some (row, text))
    (htag : row.tag ≠ some Token.ignorableTag)
    (ha : after ≠ [] → (script.firstScan? after).isSome) (hr : Separates rest) :
    script.firstScan? (text ++ rest) = some (row, text) := by
  obtain ⟨hne, -⟩ := append_of_firstScan? h
  obtain ⟨hrow, hs⟩ := firstScan?_eq_some h
  obtain ⟨x, tail, rfl⟩ := List.exists_cons_of_ne_nil hne
  have hb : row.begins x := Bool.of_not_eq_false fun hb => by
    rw [List.cons_append, scan?_eq_none hrow hb] at hs
    cases hs
  have only {row' : TokenRow} (hx : script.rows.filter (·.begins x) = [row']) : row = row' := by
    have : row ∈ script.rows.filter (·.begins x) := List.mem_filter.2 ⟨hrow, hb⟩
    simpa [hx] using this
  by_cases hq : x = '"'
  · subst hq
    obtain rfl : row = string := only (by rfl)
    obtain ⟨pieces, hp, ht⟩ := pieces_of_scan? hs
    rw [ht]
    exact firstScan?_pieces hp rest
  · have hp : BeginsPlain x := by
      refine ⟨fun hblank => htag ?_, fun hc => htag ?_, hq⟩
      · obtain ⟨ws, hws, -⟩ := exists_firstScan?_blank hblank (tail ++ after)
        obtain ⟨rfl, -⟩ := Prod.mk.inj (Option.some.inj (h.symm.trans hws))
        rfl
      · subst hc
        obtain rfl : row = comment := only (by rfl)
        rfl
    have alone := firstScan?_alone hp h ha
    have hx : x.toNat < 128 := hp.toNat_lt (Option.isSome_of_eq_some alone)
    rw [← alone]
    exact firstScan?_congr fun r hrow => scan?_separated hx hp hrow hr

/-! ## Gaps -/

/-- White space and comments that end with their line. -/
inductive IsGap : List Char → Prop
  | nil : IsGap []
  | blank {x : Char} {rest : List Char} : Text.isBlank x → IsGap rest → IsGap (x :: rest)
  | comment {words rest : List Char} : '\n' ∉ words → IsGap rest →
    IsGap ('#' :: (words ++ '\n' :: rest))

theorem IsGap.separates {gap : List Char} (h : IsGap gap) (hne : gap ≠ []) (rest : List Char) :
    Separates (gap ++ rest) := by
  cases h with
  | nil => exact absurd rfl hne
  | blank hx _ =>
      rintro y ⟨⟩
      exact .inl hx
  | comment _ _ =>
      rintro y ⟨⟩
      exact .inr rfl

theorem kinds?_comment {words : List Char} (hw : '\n' ∉ words) (rest : List Char) :
    script.kinds? ('#' :: (words ++ '\n' :: rest)) = script.kinds? rest := by
  have taken : comment.scan? (('#' :: words) ++ '\n' :: rest) = some ('#' :: words) := by
    refine scan?_of_takesFirst (List.cons_ne_nil _ _)
      ((takesFirst_one rfl _).cons (takesFirst_anyOf (fun y hy => ?_) (by simp [CharSet.accepts])))
    have hne : y ≠ '\n' := fun he => hw (he ▸ hy)
    simpa [CharSet.accepts] using hne
  have first : script.firstScan? (('#' :: words) ++ '\n' :: rest) = some (comment, '#' :: words) :=
    firstScan?_of_only (by rfl) taken
  rw [← List.cons_append, kinds?_append (List.cons_ne_nil _ _) first, kindOf_of_ignorable rfl,
    kinds?_blank (by decide)]
  simp

/-- A gap before a text makes no difference to its tokens. -/
theorem kinds?_gap {gap : List Char} (h : IsGap gap) (rest : List Char) :
    script.kinds? (gap ++ rest) = script.kinds? rest := by
  induction h with
  | nil => rfl
  | blank hx _ ih => rw [List.cons_append, kinds?_blank hx, ih]
  | @comment words more hw _ ih =>
      have regroup : '#' :: (words ++ '\n' :: more) ++ rest =
          '#' :: (words ++ '\n' :: (more ++ rest)) := by simp
      rw [regroup, kinds?_comment hw, ih]

/-- Where the kinds of a text come from. -/
theorem firstScan?_of_kinds? {ks : List (String × String)} (h : script.kinds? text = some ks) :
    ∀ k ∈ ks, ∃ row after, script.firstScan? (k.2.toList ++ after) = some (row, k.2.toList) ∧
      row.tag ≠ some Token.ignorableTag ∧ kindOf row k.2.toList = [k] ∧
      (after ≠ [] → (script.firstScan? after).isSome) := by
  obtain ⟨links, stop, chain, rfl⟩ := exists_chain_of_kinds? script_isTied h
  intro k hk
  obtain ⟨l, hl, hk⟩ := List.mem_flatMap.1 hk
  obtain ⟨after, first, more⟩ := chain.isFirst_of_mem l hl
  by_cases htag : l.row.tag = some Token.ignorableTag
  · rw [kindOf_of_ignorable htag] at hk
    cases hk
  · obtain ⟨name, pattern, tag, parts, hrow⟩ := script_rows first.mem
    rw [hrow] at first htag hk
    have kind : kindOf (ofParts name pattern tag parts) l.text = _ :=
      kindOf_of_tag rfl (fun he => htag (congrArg some he)) l.text
    rw [kind, List.mem_singleton] at hk
    subst hk
    rw [String.toList_ofList]
    exact ⟨_, after, firstScan?_eq_some_iff.2 first, htag, kind, more⟩

/-- A token of this name and text is cut off before a gap. -/
def StandsApart (k : String × String) : Prop :=
  ∀ rest, Separates rest →
    script.kinds? (k.2.toList ++ rest) = (script.kinds? rest).map (k :: ·)

/-- The tokens of a text stand apart, also where they touched. -/
theorem standsApart_of_kinds? {ks : List (String × String)} (h : script.kinds? text = some ks) :
    ∀ k ∈ ks, StandsApart k := by
  intro k hk gap hgap
  obtain ⟨row, after, hs, htag, kind, more⟩ := firstScan?_of_kinds? h k hk
  rw [kinds?_append (append_of_firstScan? hs).1 (firstScan?_separated hs htag more hgap), kind]
  rfl

/-! ## Layouts -/

/-- The texts follow one another, each after a gap, and a gap may come last. -/
inductive Continues : List String → List Char → Prop
  | done {gap : List Char} : IsGap gap → Continues [] gap
  | next {gap rest : List Char} {text : String} {texts : List String} : IsGap gap → gap ≠ [] →
    Continues texts rest → Continues (text :: texts) (gap ++ (text.toList ++ rest))

/-- The characters are the texts in order with gaps between them, and perhaps one at either end. -/
inductive IsLayout : List String → List Char → Prop
  | empty {gap : List Char} : IsGap gap → IsLayout [] gap
  | begin {gap rest : List Char} {text : String} {texts : List String} : IsGap gap →
    Continues texts rest → IsLayout (text :: texts) (gap ++ (text.toList ++ rest))

theorem Continues.separates {texts : List String} {cs : List Char} (h : Continues texts cs) :
    Separates cs := by
  cases h with
  | done hgap =>
      by_cases hne : cs = []
      · subst hne
        simp [Separates]
      · have := hgap.separates hne []
        rwa [List.append_nil] at this
  | next hgap hne _ => exact hgap.separates hne _

theorem kinds?_continues {ks : List (String × String)} (h : ∀ k ∈ ks, StandsApart k)
    {cs : List Char} (hc : Continues (ks.map Prod.snd) cs) : script.kinds? cs = some ks := by
  induction ks generalizing cs with
  | nil =>
      cases hc with
      | done hgap =>
          have := kinds?_gap hgap []
          rwa [List.append_nil] at this
  | cons k ks ih =>
      obtain ⟨hk, hks⟩ := List.forall_mem_cons.1 h
      cases hc with
      | next hgap _ hrest =>
          rw [kinds?_gap hgap, hk _ hrest.separates, ih hks hrest, Option.map_some]

/-- In another layout a text is cut into tokens of the same names and texts. -/
theorem kinds?_layout {ks : List (String × String)} (h : script.kinds? text = some ks)
    {cs : List Char} (hc : IsLayout (ks.map Prod.snd) cs) : script.kinds? cs = some ks := by
  have apart := standsApart_of_kinds? h
  match ks, hc with
  | [], .empty hgap => exact kinds?_continues apart (.done hgap)
  | k :: ks, .begin hgap hrest =>
      obtain ⟨hk, hks⟩ := List.forall_mem_cons.1 apart
      rw [kinds?_gap hgap, hk _ hrest.separates, kinds?_continues hks hrest, Option.map_some]

end TokenTable

end NodeScript
