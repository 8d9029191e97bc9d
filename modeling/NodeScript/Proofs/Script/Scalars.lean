import NodeScript.Proofs.Decimal.Integers
import NodeScript.Proofs.Script.Syntax
import NodeScript.Proofs.Token.Spelling

/-!
# Scalars as they are written

The token that a scalar is written as, and the scalar that this token is cast to: the same one,
but for numbers that are not finite.
-/

namespace NodeScript

open TokenTable TokenRow
open Decimal (minus)

/-! ## Names and words -/

/-- A letter or underscore followed by letters, digits and underscores. -/
def IsIdentifier (w : String) : Prop :=
  ∃ x tail, w.toList = x :: tail ∧ Scalar.isBareStart x ∧ ∀ y ∈ tail, y.isAlphanum || y == '_'

theorem isIdentifier_of {w : String} {x : Char} {tail : List Char} (hw : w.toList = x :: tail)
    (hx : Scalar.isBareStart x) (ht : tail.all fun y => y.isAlphanum || y == '_') :
    IsIdentifier w :=
  ⟨x, tail, hw, hx, List.all_eq_true.1 ht⟩

/-- A word that is a token of its own wherever a script writes it. -/
structure IsName (w : String) : Prop where
  standsAlone : StandsAlone w.toList
  accepted : word.accepts w

/-- The kind of the token of a word. -/
def wordKind (w : String) : String × String :=
  (rowName w.toList, w)

theorem IsName.spells {w : String} (h : IsName w) : Spells w.toList (some [wordKind w]) := by
  have := h.standsAlone.spells
  rwa [String.ofList_toList] at this

theorem IsIdentifier.isName {w : String} (h : IsIdentifier w) : IsName w := by
  obtain ⟨x, tail, hw, hx, ht⟩ := h
  rw [← String.ofList_toList (s := w), hw]
  refine ⟨?_, ?_⟩
  · rw [String.toList_ofList]
    exact standsAlone_identifier hx ht
  · have hx' : CharSet.wordHead.accepts x := by rwa [accepts_wordHead]
    have ht' : ∀ y ∈ tail, CharSet.wordTail.accepts y := fun y hy => by
      rw [accepts_wordTail, ht y hy, Bool.true_or]
    have htake := takesFirst_word hx' ht' (fun y hy => nomatch hy : ∀ y ∈ [].head?, _)
    have hs : word.scan? (x :: tail ++ []) = some (x :: tail) :=
      scan?_of_takesFirst (List.cons_ne_nil _ _) htake
    rw [List.append_nil] at hs
    exact accepts_of_scan? hs

/-- The row of a word. -/
theorem rowName_mem {x : Char} {tail : List Char} (hx : CharSet.wordHead.accepts x)
    (h : StandsAlone (x :: tail)) :
    rowName (x :: tail) ∈ ["TCL_SET", "TCL_PUSH", "FRAME", "WORD"] := by
  obtain ⟨row, tag, -, -, h⟩ := h
  have hs := h [] stops_nil
  rw [List.append_nil] at hs
  rw [rowName, hs]
  rw [firstScan?_letter hx] at hs
  obtain ⟨r, hr, hm⟩ := List.exists_of_findSome?_eq_some hs
  obtain ⟨_, -, he⟩ := Option.map_eq_some_iff.1 hm
  obtain ⟨rfl, -⟩ := Prod.mk.inj he
  simp only [List.mem_cons, List.not_mem_nil, or_false] at hr
  rcases hr with rfl | rfl | rfl | rfl <;> simp [setCommand, pushCommand, frame, word, ofParts]

namespace Scalar

/-- The row of the token that a scalar is written as. Minus infinity is written as no token. -/
def rowName? : Scalar → Option String
  | .bool _ => some "WORD"
  | .int _ => some "INT"
  | .float .nan => some "WORD"
  | .float (.infinite true) => none
  | .float (.infinite false) => some "WORD"
  | .float (.finite ..) => some "FLOAT"
  | .text s => some (if isBare s then rowName s.toList else "STRING")

/-- The kind of the token that a scalar is written as. -/
def kind? (s : Scalar) : Option (String × String) :=
  s.rowName?.map (·, s.render)

/-- The scalar that is read back for a scalar that was written. -/
def readBack? : Scalar → Option Scalar
  | .float .nan => some (.text "NaN")
  | .float (.infinite true) => none
  | .float (.infinite false) => some (.text "inf")
  | s => some s

/-- Whether a number in the scalar is finite. -/
def isFinite : Scalar → Bool
  | .float x => x.isFinite
  | _ => true

theorem isIdentifier_of_isBare {s : String} (h : isBare s) : IsIdentifier s := by
  simp only [isBare, Bool.and_eq_true] at h
  obtain ⟨⟨hx, ht⟩, -⟩ := h
  match hs : s.toList with
  | [] => simp [hs] at hx
  | x :: tail =>
      rw [hs] at hx ht
      exact ⟨x, tail, hs, hx, fun y hy => List.all_eq_true.1 ht y (by simp [hy])⟩

/-- A word with a row of its own. -/
theorem spells_word {w name : String} (h : IsIdentifier w) (hn : rowName w.toList = name) :
    Spells w.toList (some [(name, w)]) :=
  hn ▸ h.isName.spells

theorem toList_render_int (i : Int64) :
    (Scalar.int i).render.toList = minus (decide (i.toInt < 0)) ++ Nat.toDigits 10 i.toInt.natAbs :=
  toList_toString i.toInt

theorem spells_int (i : Int64) :
    Spells (Scalar.int i).render.toList (some [("INT", (Scalar.int i).render)]) := by
  rw [← String.ofList_toList (s := (Scalar.int i).render), String.toList_ofList, toList_render_int]
  exact spells_of_firstScan? TokenRow.int (by simp [Nat.toDigits_ne_nil]) rfl (by decide)
    fun rest hr => firstScan?_int _ Nat.toDigits_ne_nil Decimal.isDigit_toDigits hr

/-- Minus infinity cannot be cut into tokens. -/
theorem spells_minusInf : Spells ['-', 'i', 'n', 'f'] none := by
  intro rest hr
  have noDigit : ∀ x ∈ ['-', 'i', 'n', 'f'], ∀ set ∈ [CharSet.asciiDigit], ¬set.accepts x := by
    have hall : ['-', 'i', 'n', 'f'].all (fun x => !CharSet.asciiDigit.accepts x) = true := rfl
    intro x hx set hs
    obtain rfl := List.mem_singleton.1 hs
    simpa using List.all_eq_true.1 hall x hx
  have fails {name pattern tag : String} {parts : List Pattern}
      (hn : (Pattern.concat parts).needs [.asciiDigit])
      (hread : [' ', '\n', '\x7d', ']'].all (fun x => !(Pattern.concat parts).reads x) = true) :
      (ofParts name pattern tag parts).scan? (['-', 'i', 'n', 'f'] ++ rest) = none :=
    scan?_eq_none_of_fails (Pattern.fails_of_needs _ hn noDigit (hr.not hread))
  have hf : TokenRow.float.scan? ('-' :: ['i', 'n', 'f'] ++ rest) = none := fails rfl rfl
  have hi : TokenRow.int.scan? ('-' :: ['i', 'n', 'f'] ++ rest) = none := fails rfl rfl
  refine kinds?_eq_none ?_
  rw [firstScan?_number rfl, List.findSome?_cons, List.findSome?_cons]
  simp only [List.cons_append, List.nil_append] at hf hi ⊢
  simp [hf, hi]

theorem spells (s : Scalar) : Spells s.render.toList (s.kind?.map fun k => [k]) := by
  match s with
  | .bool true => exact spells_word (isIdentifier_of rfl rfl rfl) (by decide)
  | .bool false => exact spells_word (isIdentifier_of rfl rfl rfl) (by decide)
  | .int i => exact spells_int i
  | .float .nan => exact spells_word (isIdentifier_of rfl rfl rfl) (by decide)
  | .float (.infinite true) => exact spells_minusInf
  | .float (.infinite false) => exact spells_word (isIdentifier_of rfl rfl rfl) (by decide)
  | .float (.finite negative m e h) =>
      obtain ⟨n, hw, hn, hr, -⟩ := Binary64.exists_render negative h
      simp only [kind?, rowName?, render, hr, Option.map_some, String.toList_ofList]
      obtain ⟨x, rest, ht, -⟩ := Numeral.text_eq_cons hw
      exact spells_of_firstScan? TokenRow.float (by simp [ht]) rfl (by decide)
        fun rest hr => firstScan?_numeral negative hw hn hr
  | .text s =>
      simp only [kind?, rowName?, render, Option.map_some]
      split
      · next h => exact (isIdentifier_of_isBare h).isName.spells
      · rw [String.toList_ofList]
        exact spells_of_firstScan? TokenRow.string (by simp [quote]) rfl (by decide)
          fun rest _ => firstScan?_quote _ rest

/-! ## Reading back -/

variable {s : Scalar} {t : Token}

theorem name_of_kind? (h : s.kind? = some t.kind) : s.rowName? = some t.name := by
  obtain ⟨name, hn, hk⟩ := Option.map_eq_some_iff.1 h
  rw [hn, (Prod.mk.inj hk).1]

theorem text_of_kind? (h : s.kind? = some t.kind) : t.text = s.render := by
  obtain ⟨name, hn, hk⟩ := Option.map_eq_some_iff.1 h
  exact (Prod.mk.inj hk).2.symm

theorem unescape_quote (cs : List Char) : unquote.unescape
    (cs.flatMap fun c => if c = '"' ∨ c = '\\' then ['\\', c] else [c]) = cs := by
  induction cs with
  | nil => rfl
  | cons c cs ih =>
      rw [List.flatMap_cons]
      split
      · simp only [List.cons_append, List.nil_append, unquote.unescape, ih]
      · next h =>
          rw [List.singleton_append, unquote.unescape.eq_2 _ _ (by simp_all), ih]

/-- A text reads back from between its quotes. -/
theorem unquote_quote (cs : List Char) :
    unquote (String.ofList (quote cs)) = String.ofList cs := by
  simp only [unquote, quote, String.toList_ofList, List.cons_append, List.getLast?_concat, if_true,
    List.dropLast_concat, unescape_quote]

theorem cast_word {w : String} (hn : t.name = "WORD") (ht : t.text = w)
    (hw : readBool? w = none) : t.cast = .ok (.text w) := by
  simp [Token.cast, hn, ht, hw]

/-- The token of a scalar is cast to what reads back for the scalar. -/
theorem cast_of_kind? (h : s.kind? = some t.kind) :
    ∃ s', s.readBack? = some s' ∧ t.cast = .ok s' := by
  have hn := name_of_kind? h
  have ht := text_of_kind? h
  match s with
  | .bool b =>
      have hw : t.name = "WORD" := (Option.some.inj hn).symm
      refine ⟨.bool b, rfl, ?_⟩
      cases b <;> simp only [Token.cast, hw, ht, render] <;> rfl
  | .int i =>
      have hn : t.name = "INT" := (Option.some.inj hn).symm
      refine ⟨.int i, rfl, ?_⟩
      simp only [Token.cast, hn, ht, render, Decimal.readInt64?_toString]
  | .float .nan => exact ⟨_, rfl, cast_word (Option.some.inj hn).symm ht (by decide)⟩
  | .float (.infinite false) => exact ⟨_, rfl, cast_word (Option.some.inj hn).symm ht (by decide)⟩
  | .float (.infinite true) => cases hn
  | .float (.finite negative m e hc) =>
      have hn : t.name = "FLOAT" := (Option.some.inj hn).symm
      have hr := Binary64.read?_render (x := .finite negative m e hc) rfl
      refine ⟨_, rfl, ?_⟩
      simp only [Token.cast, hn, ht, render, Token.castFloat, hr]
  | .text w =>
      refine ⟨_, rfl, ?_⟩
      by_cases hb : isBare w
      · obtain ⟨x, tail, hw, hx, hs⟩ := isIdentifier_of_isBare hb
        have hx' : CharSet.wordHead.accepts x := by
          rw [accepts_wordHead]
          exact hx
        have hm := rowName_mem hx' (hw ▸ (isIdentifier_of_isBare hb).isName.standsAlone)
        have hn : rowName w.toList = t.name := by simpa [rowName?, hb] using hn
        have ht : t.text = w := by simpa [render, hb] using ht
        have hbool : readBool? w = none := by
          simp only [isBare, Bool.and_eq_true, Option.isNone_iff_eq_none] at hb
          exact hb.2
        rw [← hw, hn] at hm
        simp only [List.mem_cons, List.not_mem_nil, or_false] at hm
        rcases hm with hm | hm | hm | hm <;> simp [Token.cast, hm, ht, hbool]
      · have hn : t.name = "STRING" := by simpa [rowName?, hb] using hn.symm
        have ht : t.text = String.ofList (quote w.toList) := by simpa [render, hb] using ht
        simp [Token.cast, hn, ht, unquote_quote]

/-! ## What the token of a scalar is -/

open Script

/-- A scalar that stands as a number in a curve. -/
def isNumber : Scalar → Bool
  | .int _ => true
  | .float x => x.isFinite
  | _ => false

/-- The frame that a text stands for: the mark `x` and the digits of a whole number of 64 bits. -/
def frame? : Scalar → Option Int64
  | .text w =>
    match w.toList with
    | 'x' :: ds =>
      if ds ≠ [] ∧ ds.all Char.isDigit then
        ((Binary64.read? (String.ofList ds)).bind Binary64.toInt?).bind Decimal.toInt64?
      else none
    | _ => none
  | _ => none

theorem isWord_of_isIdentifier (h : IsIdentifier t.text) : isWord t :=
  h.isName.accepted

theorem isFrame_iff : isFrame t ↔ Pattern.IsFrameText t.text.toList :=
  accepts_iff_shape Pattern.endsWords_frame t.text

/-- What the token of a scalar can be: a word, a number or a quoted text. -/
inductive TokenForm (s : Scalar) (t : Token) : Prop where
  | word (h : IsIdentifier t.text) (hs : s.isNumber = false)
  | number (h : Script.isNumber t) (hs : s.isNumber)
      (head : ∃ x rest, t.text.toList = x :: rest ∧ (x.isDigit || x == '-'))
  | quoted (h : isString t) (hs : s.isNumber = false) (head : ∃ rest, t.text.toList = '"' :: rest)

theorem tokenForm (h : s.kind? = some t.kind) : TokenForm s t := by
  have hn := name_of_kind? h
  have ht := text_of_kind? h
  match s with
  | .bool true => exact .word (ht ▸ isIdentifier_of rfl rfl rfl) rfl
  | .bool false => exact .word (ht ▸ isIdentifier_of rfl rfl rfl) rfl
  | .float .nan => exact .word (ht ▸ isIdentifier_of rfl rfl rfl) rfl
  | .float (.infinite false) => exact .word (ht ▸ isIdentifier_of rfl rfl rfl) rfl
  | .float (.infinite true) => cases hn
  | .int i =>
      refine .number ?_ rfl ?_
      · have hf := firstScan?_int (decide (i.toInt < 0))
          (Nat.toDigits_ne_nil (b := 10) (n := i.toInt.natAbs)) Decimal.isDigit_toDigits stops_nil
        rw [List.append_nil] at hf
        have ha : TokenRow.int.accepts t.text := by
          rw [ht, ← String.ofList_toList (s := render _), toList_render_int]
          exact accepts_of_firstScan? hf
        exact Bool.or_eq_true_iff.2 (.inr ha)
      · obtain ⟨x, rest, hi, hx⟩ := exists_toString i.toInt
        exact ⟨x, rest, ht ▸ hi, hx⟩
  | .float (.finite negative m e hc) =>
      obtain ⟨n, hw, hn, hr, -⟩ := Binary64.exists_render negative hc
      have ht : t.text = String.ofList (minus negative ++ n.text) := ht.trans hr
      refine .number ?_ rfl ?_
      · have hf := firstScan?_numeral negative hw hn stops_nil
        rw [List.append_nil] at hf
        have ha : TokenRow.float.accepts t.text := ht ▸ accepts_of_firstScan? hf
        exact Bool.or_eq_true_iff.2 (.inl ha)
      · rw [ht, String.toList_ofList]
        exact Decimal.head_minus_digits negative hw.whole_ne hw.whole _
  | .text w =>
      by_cases hb : isBare w
      · have ht : t.text = w := by simpa [render, hb] using ht
        exact .word (ht ▸ isIdentifier_of_isBare hb) rfl
      · have ht : t.text = String.ofList (quote w.toList) := by simpa [render, hb] using ht
        have hf := firstScan?_quote w.toList []
        rw [List.append_nil] at hf
        have ha : TokenRow.string.accepts t.text := ht ▸ accepts_of_firstScan? hf
        exact .quoted ha rfl ⟨_, by rw [ht, String.toList_ofList, quote]; rfl⟩

theorem isScalar_of_kind? (h : s.kind? = some t.kind) : isScalar t := by
  cases tokenForm h with
  | word h _ => simp [isScalar, isWord_of_isIdentifier h]
  | number h _ _ =>
      rw [isScalar, Bool.or_assoc, show (isFloat t || isInt t) = true from h, Bool.true_or]
  | quoted h _ _ => simp [isScalar, h]

theorem not_isNumber_of_head {x : Char} {rest : List Char} (ht : t.text.toList = x :: rest)
    (hx : CharSet.wordHead.accepts x ∨ x = '"') : Script.isNumber t = false := by
  have hl : x.toNat < 128 := by
    rcases hx with hx | rfl
    · exact CharSet.toNat_lt_of_isAscii (by decide) hx
    · decide
  obtain ⟨hf, hi⟩ : TokenRow.float.begins x = false ∧ TokenRow.int.begins x = false := by
    refine forall_ascii (P := fun x => CharSet.wordHead.accepts x ∨ x = '"' →
      TokenRow.float.begins x = false ∧ TokenRow.int.begins x = false) ?_ hl hx
    decide
  refine Bool.eq_false_iff.2 fun hn => ?_
  rcases Bool.or_eq_true_iff.1 hn with hn | hn
  · obtain ⟨y, more, hy, hb⟩ := begins_of_accepts (by decide) hn
    obtain ⟨rfl, -⟩ := List.cons.inj (ht.symm.trans hy)
    exact absurd (hf.symm.trans hb) (by simp)
  · obtain ⟨y, more, hy, hb⟩ := begins_of_accepts (by decide) hn
    obtain ⟨rfl, -⟩ := List.cons.inj (ht.symm.trans hy)
    exact absurd (hi.symm.trans hb) (by simp)

theorem isNumber_iff (h : s.kind? = some t.kind) : Script.isNumber t ↔ s.isNumber := by
  cases tokenForm h with
  | word h hs =>
      obtain ⟨x, tail, ht, hx, -⟩ := h
      rw [not_isNumber_of_head ht (.inl (by rw [accepts_wordHead]; exact hx)), hs]
  | number h hs _ => simp [h, hs]
  | quoted _ hs head =>
      obtain ⟨rest, ht⟩ := head
      rw [not_isNumber_of_head ht (.inr rfl), hs]

/-- A token that begins as curves and frames do is of a text without quotes. -/
theorem eq_text_of_head (h : s.kind? = some t.kind) {x : Char} {rest : List Char}
    (ht : t.text.toList = x :: rest) (hx : x = 'c' ∨ x = 'x') :
    s = .text t.text ∧ isBare t.text := by
  have hr := text_of_kind? h
  have hh : s.render.toList.head? = some x := by rw [← hr, ht, List.head?_cons]
  cases tokenForm h with
  | number _ _ head =>
      obtain ⟨y, more, hy, hd⟩ := head
      obtain ⟨rfl, -⟩ := List.cons.inj (ht.symm.trans hy)
      rcases hx with rfl | rfl <;> cases hd
  | quoted _ _ head =>
      obtain ⟨more, hy⟩ := head
      obtain ⟨rfl, -⟩ := List.cons.inj (ht.symm.trans hy)
      rcases hx with hx | hx <;> cases hx
  | word _ hs =>
      match s with
      | .bool true => rcases hx with rfl | rfl <;> exact absurd hh (by decide)
      | .bool false => rcases hx with rfl | rfl <;> exact absurd hh (by decide)
      | .float .nan => rcases hx with rfl | rfl <;> exact absurd hh (by decide)
      | .float (.infinite false) => rcases hx with rfl | rfl <;> exact absurd hh (by decide)
      | .float (.infinite true) => cases name_of_kind? h
      | .text w =>
          by_cases hb : isBare w
          · obtain rfl : t.text = w := by simpa [render, hb] using hr
            exact ⟨rfl, hb⟩
          · have hq : (quote w.toList).head? = some x := by simpa [render, hb] using hh
            rcases hx with rfl | rfl <;> cases hq

theorem isBare_frame {ds : List Char} (hd : ∀ x ∈ ds, x.isDigit) :
    isBare (String.ofList ('x' :: ds)) := by
  have hs : ∀ x ∈ 'x' :: ds, x.isAlphanum || x == '_' := by
    rintro x (_ | ⟨_, hx⟩)
    · rfl
    · simp [Char.isAlphanum, hd x hx]
  have hb : readBool? (String.ofList ('x' :: ds)) = none := by
    have head {w : List Char} (hw : w.head? ≠ some 'x') : Decimal.lowercase ('x' :: ds) ≠ w :=
      fun h => hw (by rw [← h]; rfl)
    simp only [readBool?, String.toList_ofList]
    rw [if_neg (head (by decide)), if_neg (head (by decide))]
  have ha : ('x' :: ds).all (fun x => x.isAlphanum || x == '_') := List.all_eq_true.2 hs
  simp only [isBare, String.toList_ofList, ha, hb]
  rfl

theorem castFrame_eq_ok_iff {ds : List Char} (ht : t.text = String.ofList ('x' :: ds)) (i : Int64) :
    t.castFrame = .ok i ↔
      ((Binary64.read? (String.ofList ds)).bind Binary64.toInt?).bind Decimal.toInt64? =
        some i := by
  have hd : Token.frameDigits t.text = String.ofList ds := by
    simp only [ht, Token.frameDigits, String.toList_ofList]
  unfold Token.castFrame
  rw [hd]
  cases Binary64.read? (String.ofList ds) with
  | none => simp
  | some x =>
      cases hx : x.toInt? with
      | none => simp [hx]
      | some n => cases hn : Decimal.toInt64? n <;> simp [hx, hn]

/-- The frame of a text is what its token is cast to as a frame. -/
theorem frame?_eq_some_iff (h : s.kind? = some t.kind) (i : Int64) :
    s.frame? = some i ↔ isFrame t ∧ t.castFrame = .ok i := by
  constructor
  · intro hf
    match s with
    | .bool _ => cases hf
    | .int _ => cases hf
    | .float _ => cases hf
    | .text w =>
        rw [frame?] at hf
        split at hf
        · next ds hw =>
            split at hf
            · next hd =>
                have hd' : ∀ x ∈ ds, x.isDigit := List.all_eq_true.1 hd.2
                have hw' : w = String.ofList ('x' :: ds) := by rw [← hw, String.ofList_toList]
                have hb : isBare w := hw' ▸ isBare_frame hd'
                have ht : t.text = w := by
                  rw [text_of_kind? h, render, if_pos hb]
                refine ⟨isFrame_iff.2 ⟨ds, hd.1, hd', .inl (by rw [ht, hw])⟩, ?_⟩
                rw [castFrame_eq_ok_iff (ht.trans hw'), hf]
            · cases hf
        · cases hf
  · rintro ⟨hf, hc⟩
    rw [isFrame_iff] at hf
    obtain ⟨ds, hne, hd, ht | ⟨ds', -, -, ht⟩⟩ := hf
    · obtain ⟨rfl, -⟩ := eq_text_of_head h ht (.inr rfl)
      have hall : ds.all Char.isDigit := List.all_eq_true.2 hd
      rw [castFrame_eq_ok_iff (by rw [← ht, String.ofList_toList])] at hc
      simp only [frame?, ht]
      rw [if_pos ⟨hne, hall⟩, hc]
    · obtain ⟨-, hb⟩ := eq_text_of_head h ht (.inr rfl)
      simp [isBare, ht] at hb

theorem eq_curve_iff (h : s.kind? = some t.kind) : t.text = "curve" ↔ s = .text "curve" := by
  constructor
  · intro ht
    rw [(eq_text_of_head h (x := 'c') (by rw [ht]; rfl) (.inl rfl)).1, ht]
  · rintro rfl
    exact text_of_kind? h

end Scalar

end NodeScript
