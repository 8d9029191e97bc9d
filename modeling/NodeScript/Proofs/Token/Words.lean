import NodeScript.Proofs.Token.Scanning

/-!
# Words

A word can be the text of a command, of a frame or of nothing in particular. Commands and frames
are taken only where no word character follows, so a word that one of them begins is still taken
as a whole.
-/

namespace NodeScript

open Pattern

namespace Pattern

theorem mem_ends_optional {p : Pattern} {c c' : Cursor} :
    c' ∈ (optional p).ends c ↔ c' ∈ p.ends c ∨ c' = c := by
  simp [optional, ends, endsTimes, endsAtMost]

theorem mem_endsAll_chars {text : List Char} {c c' : Cursor} :
    c' ∈ endsAll (text.map char) c ↔ ∃ rest, c.rest = text ++ rest ∧ c' = c.skip text rest := by
  induction text generalizing c with
  | nil =>
      simp only [List.map_nil, endsAll, List.mem_singleton, List.nil_append, exists_eq_left',
        c.skip_nil]
  | cons x text ih =>
      simp only [List.map_cons, mem_endsAll_cons, ih]
      constructor
      · rintro ⟨c₁, h₁, rest, hr, rfl⟩
        cases hc : c.rest with
        | nil => simp [char, ends, hc] at h₁
        | cons y rest' =>
            obtain ⟨rfl, rfl⟩ : y = x ∧ c₁ = c.skip [y] rest' := by
              simpa [char, ends, hc, CharSet.accepts] using h₁
            obtain rfl : rest' = text ++ rest := hr
            exact ⟨rest, rfl, by simp⟩
      · rintro ⟨rest, hc, rfl⟩
        exact ⟨c.skip [x] (text ++ rest), by simp [char, ends, hc, CharSet.accepts], rest, rfl,
          by simp⟩

/-- Where parts can end: after a text of a shape, before no word character. -/
def EndsWords (ps : List Pattern) (Shape : List Char → Prop) : Prop :=
  ∀ text c, c ∈ endsAll ps (.start text) ↔ ∃ m rest, text = m ++ rest ∧ Shape m ∧
    rest.head?.any Text.isWordChar = false ∧ c = (Cursor.start text).skip m rest

/-- A word boundary after texts that end in word characters. -/
theorem endsWords_boundary (ps : List Pattern) {Shape : List Char → Prop}
    (h : ∀ text c, c ∈ endsAll ps (.start text) ↔
      ∃ m rest, text = m ++ rest ∧ Shape m ∧ c = (Cursor.start text).skip m rest)
    (hs : ∀ m, Shape m → ∃ m' x, m = m' ++ [x] ∧ Text.isWordChar x) :
    EndsWords (ps ++ [.anchor .wordBoundary]) Shape := by
  have holds {m : List Char} (hm : Shape m) (c : Cursor) (rest : List Char) :
      Anchor.wordBoundary.holds (c.skip m rest) ↔ rest.head?.any Text.isWordChar = false := by
    obtain ⟨m', x, rfl, hx⟩ := hs m hm
    rw [Anchor.holds, Cursor.wordBefore_skip_concat, Cursor.wordAfter_skip, hx]
    cases rest.head?.any Text.isWordChar <;> simp
  intro text c
  rw [endsAll_append, List.mem_flatMap]
  simp only [h, endsAll_singleton, ends]
  constructor
  · rintro ⟨_, ⟨m, rest, ht, hm, rfl⟩, hc⟩
    by_cases hb : Anchor.wordBoundary.holds ((Cursor.start text).skip m rest)
    · exact ⟨m, rest, ht, hm, (holds hm _ _).1 hb, by simpa [hb] using hc⟩
    · simp [hb] at hc
  · rintro ⟨m, rest, ht, hm, hr, rfl⟩
    exact ⟨_, ⟨m, rest, ht, hm, rfl⟩, by simp [(holds hm _ _).2 hr]⟩

theorem endsWords_keyword (text : List Char) {x : Char} (hx : Text.isWordChar x) :
    EndsWords (keyword (text ++ [x])) (· = text ++ [x]) := by
  refine endsWords_boundary _ (fun text' c => ?_) fun m hm => ⟨text, x, hm, hx⟩
  rw [mem_endsAll_chars]
  constructor
  · rintro ⟨rest, hc, rfl⟩
    exact ⟨_, rest, hc, rfl, rfl⟩
  · rintro ⟨m, rest, hc, rfl, rfl⟩
    exact ⟨rest, hc, rfl⟩

/-- The text of a frame: the mark `x`, digits, and perhaps a fraction. -/
def IsFrameText (m : List Char) : Prop :=
  ∃ ds, ds ≠ [] ∧ (∀ x ∈ ds, x.isDigit) ∧ (m = 'x' :: ds ∨
    ∃ ds', ds' ≠ [] ∧ (∀ x ∈ ds', x.isDigit) ∧ m = 'x' :: ds ++ '.' :: ds')

theorem IsFrameText.digit_last {m : List Char} (h : IsFrameText m) :
    ∃ m' x, m = m' ++ [x] ∧ x.isDigit := by
  obtain ⟨ds, hne, hd, rfl | ⟨ds', hne', hd', rfl⟩⟩ := h
  · exact ⟨'x' :: ds.dropLast, ds.getLast hne, by simp [List.dropLast_concat_getLast],
      hd _ (List.getLast_mem hne)⟩
  · exact ⟨'x' :: ds ++ '.' :: ds'.dropLast, ds'.getLast hne',
      by simp [List.dropLast_concat_getLast], hd' _ (List.getLast_mem hne')⟩

theorem IsFrameText.ne_nil {m : List Char} (h : IsFrameText m) : m ≠ [] := by
  obtain ⟨m', x, rfl, -⟩ := h.digit_last
  simp

theorem IsFrameText.wordTail {m : List Char} (h : IsFrameText m) :
    ∀ x ∈ m, CharSet.wordTail.accepts x := by
  have digit {x : Char} (hx : x.isDigit) : CharSet.wordTail.accepts x := by
    simp [TokenTable.accepts_wordTail, Char.isAlphanum, hx]
  obtain ⟨ds, -, hd, rfl | ⟨ds', -, hd', rfl⟩⟩ := h
  · rintro x (_ | ⟨_, hx⟩)
    · rfl
    · exact digit (hd x hx)
  · intro x hx
    rcases List.mem_append.1 hx with (_ | ⟨_, hx⟩) | (_ | ⟨_, hx⟩)
    · rfl
    · exact digit (hd x hx)
    · rfl
    · exact digit (hd' x hx)

theorem mem_endsAll_frame {text : List Char} {c : Cursor} :
    c ∈ endsAll [char 'x', .someOf .asciiDigit, .optional (.concat [char '.', .someOf .asciiDigit])]
        (.start text) ↔
      ∃ m rest, text = m ++ rest ∧ IsFrameText m ∧ c = (Cursor.start text).skip m rest := by
  have digits {ds : List Char} :
      (∀ x ∈ ds, CharSet.asciiDigit.accepts x) ↔ ∀ x ∈ ds, x.isDigit := by
    simp [TokenTable.accepts_asciiDigit]
  have mark (x : Char) {c c' : Cursor} :
      c' ∈ (char x).ends c ↔ ∃ rest, c.rest = x :: rest ∧ c' = c.skip [x] rest := by
    rw [← endsAll_singleton, ← List.map_singleton, mem_endsAll_chars]
    rfl
  simp only [mem_endsAll_cons, mark, someOf, mem_ends_someOf, mem_ends_optional, ends_concat,
    digits, mem_endsAll_nil]
  constructor
  · rintro ⟨_, ⟨r₁, h₁, rfl⟩, _, ⟨ds, r₂, h₂, hne, hd, rfl⟩, _, ⟨_, ⟨r₃, h₃, rfl⟩, _,
      ⟨ds', r₄, h₄, hne', hd', rfl⟩, rfl⟩ | rfl, rfl⟩
    · obtain rfl : r₁ = ds ++ r₂ := h₂
      obtain rfl : r₂ = '.' :: r₃ := h₃
      obtain rfl : r₃ = ds' ++ r₄ := h₄
      exact ⟨'x' :: ds ++ '.' :: ds', r₄, by simpa using h₁,
        ⟨ds, hne, hd, .inr ⟨ds', hne', hd', rfl⟩⟩, by simp⟩
    · obtain rfl : r₁ = ds ++ r₂ := h₂
      exact ⟨'x' :: ds, r₂, h₁, ⟨ds, hne, hd, .inl rfl⟩, by simp⟩
  · rintro ⟨m, rest, rfl, ⟨ds, hne, hd, rfl | ⟨ds', hne', hd', rfl⟩⟩, rfl⟩
    · exact ⟨_, ⟨ds ++ rest, rfl, rfl⟩, _, ⟨ds, rest, rfl, hne, hd, rfl⟩, _, .inr rfl, by simp⟩
    · exact ⟨_, ⟨ds ++ '.' :: (ds' ++ rest), by simp, rfl⟩, _,
        ⟨ds, '.' :: (ds' ++ rest), rfl, hne, hd, rfl⟩, _,
        .inl ⟨_, ⟨ds' ++ rest, rfl, rfl⟩, _, ⟨ds', rest, rfl, hne', hd', rfl⟩, rfl⟩, by simp⟩

theorem endsWords_frame : EndsWords [char 'x', .someOf .asciiDigit,
    .optional (.concat [char '.', .someOf .asciiDigit]), .anchor .wordBoundary] IsFrameText := by
  refine endsWords_boundary [_, _, _] (fun text c => mem_endsAll_frame) fun m hm => ?_
  obtain ⟨m', x, rfl, hx⟩ := hm.digit_last
  exact ⟨m', x, rfl, Text.isWordChar_of_isAlphanum (by simp [Char.isAlphanum, hx])⟩

end Pattern

namespace TokenRow

variable {name pattern tag : String} {parts : List Pattern} {Shape : List Char → Prop}

/-- What a row of words takes. -/
theorem shape_of_scan? (h : EndsWords parts Shape) {text m : List Char}
    (hs : (ofParts name pattern tag parts).scan? text = some m) :
    Shape m ∧ ∃ rest, text = m ++ rest ∧ rest.head?.any Text.isWordChar = false := by
  obtain ⟨-, rest, ht, hm⟩ := head?_of_scan? hs
  obtain ⟨m', rest', ht', hS, hr, hc⟩ := (h text _).1 (List.mem_of_mem_head? hm)
  obtain rfl : rest = rest' := congrArg Cursor.rest hc
  obtain rfl : m = m' := List.append_cancel_right (ht.symm.trans ht')
  exact ⟨hS, rest, ht, hr⟩

/-- Where a row of words takes nothing. -/
theorem scan?_eq_none_iff (h : EndsWords parts Shape) (hne : ∀ m, Shape m → m ≠ [])
    {text : List Char} : (ofParts name pattern tag parts).scan? text = none ↔
      ∀ m rest, text = m ++ rest → Shape m → rest.head?.any Text.isWordChar = true := by
  constructor
  · intro hs m rest ht hm
    refine Bool.of_not_eq_false fun hr => ?_
    have hc := (h text _).2 ⟨m, rest, ht, hm, hr, rfl⟩
    cases he : endsAll parts (.start text) with
    | nil => simp [he] at hc
    | cons c cs =>
        obtain ⟨m', rest', ht', hm', -, rfl⟩ := (h text c).1 (by simp [he])
        have hl : 0 < m'.length := List.length_pos_iff.2 (hne m' hm')
        simp [scan?, find?_scanner, he, hl] at hs
  · intro hn
    cases hs : (ofParts name pattern tag parts).scan? text with
    | none => rfl
    | some m =>
        obtain ⟨hm, rest, ht, hr⟩ := shape_of_scan? h hs
        simp [hn m rest ht hm] at hr

/-- A row of words accepts the texts of its shape. -/
theorem accepts_iff_shape (h : EndsWords parts Shape) (text : String) :
    (ofParts name pattern tag parts).accepts text ↔ Shape text.toList := by
  rw [accepts_iff]
  constructor
  · rintro ⟨c, hc, hr⟩
    obtain ⟨m, rest, ht, hm, -, rfl⟩ := (h _ _).1 hc
    obtain rfl : rest = [] := hr
    rwa [ht, List.append_nil]
  · intro hm
    exact ⟨_, (h _ _).2 ⟨_, [], (List.append_nil _).symm, hm, rfl, rfl⟩, rfl⟩

end TokenRow

namespace TokenTable

open TokenRow

theorem endsWords_set : EndsWords (keyword ['s', 'e', 't']) (· = ['s', 'e', 't']) :=
  endsWords_keyword ['s', 'e'] (by decide)

theorem endsWords_push : EndsWords (keyword ['p', 'u', 's', 'h']) (· = ['p', 'u', 's', 'h']) :=
  endsWords_keyword ['p', 'u', 's'] (by decide)

/-- The rows that can take a word. -/
theorem firstScan?_letter {x : Char} (hx : CharSet.wordHead.accepts x) (rest : List Char) :
    script.firstScan? (x :: rest) = [setCommand, pushCommand, frame, word].findSome? fun row =>
      (row.scan? (x :: rest)).map (row, ·) := by
  have ascii : x.toNat < 128 := by
    rw [accepts_wordHead, Bool.or_eq_true, beq_iff_eq] at hx
    rcases hx with hx | rfl
    · exact toNat_lt_of_isAlphanum (by simp [Char.isAlphanum, hx])
    · decide
  exact firstScan?_eq_filter ["TCL_SET", "TCL_PUSH", "FRAME", "WORD"] (by decide) ascii hx rest

/-- The text is a token of its own before whatever can follow a token. -/
def StandsAlone (text : List Char) : Prop :=
  ∃ row tag, row.tag = some tag ∧ tag ≠ Token.ignorableTag ∧
    ∀ rest, Stops rest → script.firstScan? (text ++ rest) = some (row, text)

theorem Stops.not_wordTail {rest : List Char} (h : Stops rest) :
    ∀ x ∈ rest.head?, ¬CharSet.wordTail.accepts x :=
  h.not (by decide)

/-- A text that a word goes on with ends within the word. -/
theorem prefix_of_wordTail {text rest m after : List Char} (hr : Stops rest)
    (h : text ++ rest = m ++ after) (hm : ∀ x ∈ m, CharSet.wordTail.accepts x) :
    ∃ more, text = m ++ more ∧ after = more ++ rest := by
  rcases List.append_eq_append_iff.1 h with ⟨more, rfl, ha⟩ | ⟨more, ht, ha⟩
  · cases more with
    | nil => exact ⟨[], by simp, by simpa using ha.symm⟩
    | cons y more => exact absurd (hm y (by simp)) (hr.not_wordTail y (by simp [ha]))
  · exact ⟨more, ht, ha⟩

theorem takesFirst_word {x : Char} {tail rest : List Char} (hx : CharSet.wordHead.accepts x)
    (ht : ∀ y ∈ tail, CharSet.wordTail.accepts y)
    (hr : ∀ y ∈ rest.head?, ¬CharSet.wordTail.accepts y) :
    TakesFirst [.one .wordHead, anyOf .wordTail] (x :: tail) rest :=
  (takesFirst_one hx _).cons (takesFirst_anyOf ht hr)

/-- A word that neither a command nor a frame begins stands alone. -/
theorem standsAlone_word {x : Char} {tail : List Char} (hx : CharSet.wordHead.accepts x)
    (ht : ∀ y ∈ tail, CharSet.wordTail.accepts y)
    (h : ∀ rest, Stops rest → setCommand.scan? (x :: tail ++ rest) = none ∧
      pushCommand.scan? (x :: tail ++ rest) = none ∧ frame.scan? (x :: tail ++ rest) = none) :
    StandsAlone (x :: tail) := by
  refine ⟨word, "ID", rfl, by decide, fun rest hr => ?_⟩
  obtain ⟨hs, hp, hf⟩ := h rest hr
  have hw : word.scan? (x :: tail ++ rest) = some (x :: tail) :=
    scan?_of_takesFirst (List.cons_ne_nil _ _) (takesFirst_word hx ht hr.not_wordTail)
  simp only [List.cons_append] at hs hp hf hw
  rw [List.cons_append, firstScan?_letter hx]
  simp [hs, hp, hf, hw]

/-- A row of words takes nothing from a word that it cannot take a part of. -/
theorem scan?_words_of_more {name pattern tag : String} {parts : List Pattern}
    {Shape : List Char → Prop} (he : EndsWords parts Shape) (hne : ∀ m, Shape m → m ≠ [])
    (hS : ∀ m, Shape m → ∀ x ∈ m, CharSet.wordTail.accepts x) {text rest : List Char}
    (hr : Stops rest)
    (h : ∀ m more, text = m ++ more → Shape m → more.head?.any Text.isWordChar = true) :
    (ofParts name pattern tag parts).scan? (text ++ rest) = none := by
  rw [scan?_eq_none_iff he hne]
  intro m after ha hm
  obtain ⟨more, ht, rfl⟩ := prefix_of_wordTail hr ha (hS m hm)
  have := h m more ht hm
  cases more with
  | nil => simp at this
  | cons y more => simpa using this

theorem scan?_keyword {name pattern tag : String} {parts : List Pattern} {text rest : List Char}
    (he : EndsWords parts (· = text)) (hne : text ≠ []) (hr : Stops rest) :
    (ofParts name pattern tag parts).scan? (text ++ rest) = some text := by
  match hs : (ofParts name pattern tag parts).scan? (text ++ rest) with
  | none =>
      rw [scan?_eq_none_iff he (by simpa using hne)] at hs
      simpa [hr.wordAfter] using hs text rest rfl rfl
  | some m => rw [(shape_of_scan? he hs).1]

theorem standsAlone_set : StandsAlone ['s', 'e', 't'] := by
  refine ⟨setCommand, "RESERVED", rfl, by decide, fun rest hr => ?_⟩
  have hs : setCommand.scan? (['s', 'e', 't'] ++ rest) = _ :=
    scan?_keyword endsWords_set (List.cons_ne_nil _ _) hr
  rw [List.cons_append, firstScan?_letter rfl, ← List.cons_append]
  simp only [List.findSome?_cons, hs, Option.map_some]

theorem standsAlone_push : StandsAlone ['p', 'u', 's', 'h'] := by
  refine ⟨pushCommand, "RESERVED", rfl, by decide, fun rest hr => ?_⟩
  have hs : pushCommand.scan? (['p', 'u', 's', 'h'] ++ rest) = _ :=
    scan?_keyword endsWords_push (List.cons_ne_nil _ _) hr
  have hn : setCommand.scan? ('p' :: (['u', 's', 'h'] ++ rest)) = none :=
    scan?_eq_none_of_begins (by decide)
  rw [List.cons_append] at hs ⊢
  rw [firstScan?_letter rfl]
  simp only [List.findSome?_cons, hs, hn, Option.map_some, Option.map_none]

theorem takesFirst_frame {m rest : List Char} (hm : IsFrameText m) (hr : Stops rest) :
    TakesFirst [char 'x', .someOf .asciiDigit, .optional (.concat [char '.', .someOf .asciiDigit]),
      .anchor .wordBoundary] m rest := by
  have digits {ds : List Char} (hd : ∀ x ∈ ds, x.isDigit) :
      ∀ x ∈ ds, CharSet.asciiDigit.accepts x := by simpa [accepts_asciiDigit] using hd
  have noDigit : ∀ x ∈ rest.head?, ¬CharSet.asciiDigit.accepts x := hr.not (by decide)
  obtain ⟨m', y, hy, hyd⟩ := hm.digit_last
  have hyw : Text.isWordChar y := Text.isWordChar_of_isAlphanum (by simp [Char.isAlphanum, hyd])
  have h : TakesFirst [char 'x', .someOf .asciiDigit,
      .optional (.concat [char '.', .someOf .asciiDigit])] m rest := by
    obtain ⟨ds, hne, hd, rfl | ⟨ds', hne', hd', rfl⟩⟩ := hm
    · have point : Fails (.concat [char '.', .someOf .asciiDigit]) rest :=
        (fails_one (hr.not (by decide))).concat_cons
      have hf := (takesFirst_someOf hne (digits hd) noDigit).cons (takesFirst_optional_none point)
      rw [List.append_nil] at hf
      exact (takesFirst_one (s := .single 'x') rfl _).cons hf
    · have hp : TakesFirst [.concat [char '.', .someOf .asciiDigit]] ('.' :: ds') rest :=
        ((takesFirst_one rfl _).cons (takesFirst_someOf hne' (digits hd') noDigit)).concat
      have hf := (takesFirst_someOf hne (digits hd) (by simp; decide)).cons (takesFirst_optional hp)
      exact (takesFirst_one (s := .single 'x') rfl _).cons hf
  rw [hy] at h ⊢
  exact h.boundary hyw hr.wordAfter

/-- A frame stands alone. -/
theorem standsAlone_frame {m : List Char} (hm : IsFrameText m) : StandsAlone m := by
  refine ⟨frame, "ID", rfl, by decide, fun rest hr => ?_⟩
  obtain ⟨m', rfl⟩ : ∃ m', m = 'x' :: m' := by
    obtain ⟨ds, -, -, rfl | ⟨ds', -, -, rfl⟩⟩ := hm <;> exact ⟨_, rfl⟩
  have hs : setCommand.scan? ('x' :: (m' ++ rest)) = none :=
    scan?_eq_none_of_begins (by decide)
  have hp : pushCommand.scan? ('x' :: (m' ++ rest)) = none :=
    scan?_eq_none_of_begins (by decide)
  have hf : frame.scan? ('x' :: m' ++ rest) = some ('x' :: m') :=
    scan?_of_takesFirst (List.cons_ne_nil _ _) (takesFirst_frame hm hr)
  rw [List.cons_append] at hf ⊢
  rw [firstScan?_letter rfl]
  simp only [List.findSome?_cons, hs, hp, hf, Option.map_some, Option.map_none]

theorem scan?_words_eq_none {x : Char} {tail rest : List Char} (hr : Stops rest)
    (hs : ∀ more, x :: tail = ['s', 'e', 't'] ++ more → more.head?.any Text.isWordChar = true)
    (hp : ∀ more, x :: tail = ['p', 'u', 's', 'h'] ++ more → more.head?.any Text.isWordChar = true)
    (hf : ∀ m more, x :: tail = m ++ more → IsFrameText m →
      more.head?.any Text.isWordChar = true) :
    setCommand.scan? (x :: tail ++ rest) = none ∧ pushCommand.scan? (x :: tail ++ rest) = none ∧
      frame.scan? (x :: tail ++ rest) = none := by
  have tail {m : List Char} (hm : ∀ x ∈ m, x.isAlpha) : ∀ x ∈ m, CharSet.wordTail.accepts x := by
    intro x hx
    simp [accepts_wordTail, Char.isAlphanum, hm x hx]
  refine ⟨scan?_words_of_more endsWords_set (by simp) ?_ hr ?_,
    scan?_words_of_more endsWords_push (by simp) ?_ hr ?_,
    scan?_words_of_more endsWords_frame (fun _ hm => hm.ne_nil) (fun _ hm => hm.wordTail) hr
      hf⟩
  · rintro m rfl
    exact tail (List.all_eq_true.1 rfl)
  · rintro m more h rfl
    exact hs more h
  · rintro m rfl
    exact tail (List.all_eq_true.1 rfl)
  · rintro m more h rfl
    exact hp more h

/-- An identifier stands alone. -/
theorem standsAlone_identifier {x : Char} {tail : List Char} (hx : x.isAlpha || x == '_')
    (ht : ∀ y ∈ tail, y.isAlphanum || y == '_') : StandsAlone (x :: tail) := by
  have more {m more : List Char} (Shape : List Char → Prop) (hn : ¬Shape (x :: tail))
      (h : x :: tail = m ++ more) (hm : Shape m) (hne : m ≠ []) :
      more.head?.any Text.isWordChar = true := by
    obtain ⟨z, m, rfl⟩ := List.exists_cons_of_ne_nil hne
    obtain ⟨rfl, rfl⟩ := List.cons.inj h
    cases more with
    | nil => exact absurd hm (by simpa using hn)
    | cons y more => exact Text.isWordChar_of_isAlphanum (ht y (by simp))
  have ht' : ∀ y ∈ tail, CharSet.wordTail.accepts y := by
    intro y hy
    rw [accepts_wordTail, ht y hy, Bool.true_or]
  by_cases hs : x :: tail = ['s', 'e', 't']
  · exact hs ▸ standsAlone_set
  by_cases hp : x :: tail = ['p', 'u', 's', 'h']
  · exact hp ▸ standsAlone_push
  by_cases hf : IsFrameText (x :: tail)
  · exact standsAlone_frame hf
  refine standsAlone_word (by rwa [accepts_wordHead]) ht' fun rest hr => scan?_words_eq_none hr
    (fun _ h => more (· = _) hs h rfl (by simp))
    (fun _ h => more (· = _) hp h rfl (by simp)) fun m _ h hm => more _ hf h hm hm.ne_nil

/-! ## Words in texts -/

theorem accepts_word {text : List Char} (h : word.accepts (String.ofList text)) :
    ∃ x tail, text = x :: tail ∧ CharSet.wordHead.accepts x ∧
      ∀ y ∈ tail, CharSet.wordTail.accepts y := by
  obtain ⟨c, hc, hr⟩ := (accepts_iff _).1 h
  simp only [mem_endsAll_cons, mem_endsAll_nil, anyOf, mem_ends_anyOf, String.toList_ofList] at hc
  obtain ⟨c₁, h₁, c₂, ⟨run, rest, hrun, hs, rfl⟩, rfl⟩ := hc
  match text with
  | [] => simp [ends] at h₁
  | x :: tail =>
      obtain ⟨hx, rfl⟩ : CharSet.wordHead.accepts x ∧
          c₁ = (Cursor.start (x :: tail)).skip [x] tail := by
        simpa [ends] using h₁
      obtain rfl : rest = [] := hr
      obtain rfl : tail = run := by simpa using hrun
      exact ⟨x, tail, rfl, hx, hs⟩

/-- A word goes on as far as its characters do. -/
theorem scan?_word {x : Char} (hx : CharSet.wordHead.accepts x) (rest : List Char) :
    word.scan? (x :: rest) = some (x :: rest.takeWhile CharSet.wordTail.accepts) := by
  have hrest : ∀ y ∈ (rest.dropWhile CharSet.wordTail.accepts).head?,
      ¬CharSet.wordTail.accepts y := by
    intro y hy hb
    have := List.head?_dropWhile_not CharSet.wordTail.accepts rest
    simp [Option.mem_def.1 hy, hb] at this
  have hs : word.scan? (x :: rest.takeWhile CharSet.wordTail.accepts ++
      rest.dropWhile CharSet.wordTail.accepts) = _ :=
    scan?_of_takesFirst (List.cons_ne_nil _ _)
      (takesFirst_word hx (List.all_eq_true.1 List.all_takeWhile) hrest)
  rwa [List.cons_append, List.takeWhile_append_dropWhile] at hs

/-- What a word is followed by in a text that is cut into tokens. -/
theorem not_word_of_scan? {x : Char} {tail after : List Char} (hx : CharSet.wordHead.accepts x)
    (ht : ∀ y ∈ tail, CharSet.wordTail.accepts y)
    (h : word.scan? (x :: (tail ++ after)) = some (x :: tail))
    (ha : after ≠ [] → (script.firstScan? after).isSome) :
    after.head?.any Text.isWordChar = false := by
  cases after with
  | nil => rfl
  | cons y after =>
      refine Bool.eq_false_iff.2 fun hy => ?_
      replace hy : Text.isWordChar y := hy
      by_cases hl : y.toNat < 128
      · -- the word would have gone on with the character
        rw [Text.isWordChar, if_pos hl] at hy
        have hyt : CharSet.wordTail.accepts y := by rw [accepts_wordTail, hy, Bool.true_or]
        rw [scan?_word hx, List.takeWhile_append_of_pos ht, List.takeWhile_cons_of_pos hyt] at h
        simp at h
      · -- beyond ASCII only blanks begin a token
        have hb := isBlank_of_firstScan? hl (ha (List.cons_ne_nil _ _))
        simp [Text.isWordChar_of_isBlank hb] at hy

theorem scan?_of_firstScan? {x : Char} {rest text : List Char} {row : TokenRow}
    (hx : CharSet.wordHead.accepts x) (h : script.firstScan? (x :: rest) = some (row, text)) :
    setCommand.scan? (x :: rest) = some text ∨ pushCommand.scan? (x :: rest) = some text ∨
      frame.scan? (x :: rest) = some text ∨ (setCommand.scan? (x :: rest) = none ∧
        pushCommand.scan? (x :: rest) = none ∧ frame.scan? (x :: rest) = none ∧
          word.scan? (x :: rest) = some text) := by
  rw [firstScan?_letter hx] at h
  cases hs : setCommand.scan? (x :: rest) <;> cases hp : pushCommand.scan? (x :: rest) <;>
    cases hf : frame.scan? (x :: rest) <;> cases hw : word.scan? (x :: rest) <;>
      simp_all

/-- A word that a text was cut into stands alone. -/
theorem standsAlone_of_firstScan? {row : TokenRow} {text after : List Char}
    (h : script.firstScan? (text ++ after) = some (row, text))
    (hw : word.accepts (String.ofList text))
    (ha : after ≠ [] → (script.firstScan? after).isSome) : StandsAlone text := by
  obtain ⟨x, tail, rfl, hx, ht⟩ := accepts_word hw
  rcases scan?_of_firstScan? hx h with hs | hp | hf | ⟨hs, hp, hf, hw⟩
  · rw [(shape_of_scan? endsWords_set hs).1]
    exact standsAlone_set
  · rw [(shape_of_scan? endsWords_push hp).1]
    exact standsAlone_push
  · exact standsAlone_frame (shape_of_scan? endsWords_frame hf).1
  · have hn := not_word_of_scan? hx ht hw ha
    have within {more : List Char} (h : (more ++ after).head?.any Text.isWordChar = true) :
        more.head?.any Text.isWordChar = true := by
      cases more with
      | nil => exact absurd (hn.symm.trans h) (by simp)
      | cons y more => exact h
    have split {m more : List Char} (h : x :: tail = m ++ more) :
        x :: (tail ++ after) = m ++ (more ++ after) := by
      rw [← List.cons_append, h, List.append_assoc]
    refine standsAlone_word hx ht fun rest hr => scan?_words_eq_none hr ?_ ?_ ?_
    · exact fun more h =>
        within ((scan?_eq_none_iff endsWords_set (by simp)).1 hs _ _ (split h) rfl)
    · exact fun more h =>
        within ((scan?_eq_none_iff endsWords_push (by simp)).1 hp _ _ (split h) rfl)
    · exact fun m more h hm => within
        ((scan?_eq_none_iff endsWords_frame fun _ hm => hm.ne_nil).1 hf _ _ (split h) hm)

end TokenTable

end NodeScript
