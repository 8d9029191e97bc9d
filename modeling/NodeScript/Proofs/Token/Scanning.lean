import NodeScript.Proofs.Text.Characters
import NodeScript.Proofs.Token.Lexing

/-!
# The tokens of scripts

Which row takes which text: blanks, marks, words, strings and numbers, each as scripts write them,
before a blank or a closing mark.
-/

namespace NodeScript

namespace TokenTable

open Pattern TokenRow

/-! ## The rows that count -/

theorem script_rows {row : TokenRow} (h : row ∈ script.rows) :
    ∃ name pattern tag parts, row = ofParts name pattern tag parts := by
  simp only [script, List.mem_cons, List.not_mem_nil, or_false] at h
  rcases h with rfl | rfl | rfl | rfl | rfl | rfl | rfl | rfl | rfl | rfl | rfl | rfl | rfl | rfl |
    rfl | rfl <;> exact ⟨_, _, _, _, rfl⟩

theorem scan?_eq_none {row : TokenRow} (h : row ∈ script.rows) {x : Char}
    (hb : row.begins x = false) (rest : List Char) : row.scan? (x :: rest) = none := by
  obtain ⟨name, pattern, tag, parts, rfl⟩ := script_rows h
  exact scan?_eq_none_of_begins hb

/-- What is taken first is a beginning of the text, and not empty. -/
theorem append_of_firstScan? {row : TokenRow} {rest text : List Char}
    (h : script.firstScan? rest = some (row, text)) :
    text ≠ [] ∧ ∃ after, rest = text ++ after := by
  obtain ⟨hr, hs⟩ := firstScan?_eq_some h
  obtain ⟨name, pattern, tag, parts, rfl⟩ := script_rows hr
  obtain ⟨hne, after, ht, -⟩ := head?_of_scan? hs
  exact ⟨hne, after, ht⟩

/-- Rows that take nothing do not count. -/
theorem firstScan?_filter {table : TokenTable} {p : TokenRow → Bool} {rest : List Char}
    (h : ∀ row ∈ table.rows, p row = false → row.scan? rest = none) :
    table.firstScan? rest =
      (table.rows.filter p).findSome? fun row => (row.scan? rest).map (row, ·) := by
  unfold firstScan?
  generalize table.rows = rows at h
  induction rows with
  | nil => rfl
  | cons row rows ih =>
      obtain ⟨hr, hrs⟩ := List.forall_mem_cons.1 h
      by_cases hp : p row
      · simp [List.findSome?_cons, hp, ih hrs]
      · simp [hp, hr (by simpa using hp), ih hrs]

/-- Rows that cannot begin with a character of some kind do not count where there is one. -/
theorem firstScan?_eq_filter (names : List String) {p : Char → Bool}
    (h : ∀ n < 128, p (Char.ofNat n) →
      ∀ row ∈ script.rows, row.name ∉ names → row.begins (Char.ofNat n) = false)
    {x : Char} (ascii : x.toNat < 128) (hx : p x) (rest : List Char) :
    script.firstScan? (x :: rest) = (script.rows.filter (·.name ∈ names)).findSome? fun row =>
      (row.scan? (x :: rest)).map (row, ·) := by
  have hb : ∀ row ∈ script.rows, row.name ∉ names → row.begins x = false :=
    forall_ascii (P := fun x => p x → ∀ row ∈ script.rows, row.name ∉ names →
      row.begins x = false) h ascii hx
  exact firstScan?_filter fun row hr hn => scan?_eq_none hr (hb row hr (by simpa using hn)) rest

/-- The only row that can begin with the next character. -/
theorem firstScan?_of_only {row : TokenRow} {x : Char} {text rest : List Char}
    (h : script.rows.filter (·.begins x) = [row]) (hs : row.scan? (x :: rest) = some text) :
    script.firstScan? (x :: rest) = some (row, text) := by
  rw [firstScan?_filter fun row hr hb => scan?_eq_none hr hb rest, h]
  simp [hs]

/-! ## Characters -/

theorem accepts_asciiDigit (x : Char) : CharSet.asciiDigit.accepts x = x.isDigit := by
  simp [CharSet.asciiDigit, CharSet.accepts, Char.isDigit, Char.le_def, UInt32.le_iff_toNat_le]

theorem accepts_wordHead (x : Char) : CharSet.wordHead.accepts x = (x.isAlpha || x == '_') := by
  delta Char.isAlpha Char.isUpper Char.isLower
  simp [CharSet.wordHead, CharSet.accepts, Char.le_def,
    Bool.or_assoc]

theorem accepts_wordTail (x : Char) :
    CharSet.wordTail.accepts x = (x.isAlphanum || x == '_' || x == '.') := by
  delta Char.isAlphanum Char.isAlpha Char.isUpper Char.isLower Char.isDigit
  simp [CharSet.wordTail, CharSet.accepts, Char.le_def, Bool.or_assoc]

/-- Only blanks of those beyond ASCII begin a token. -/
theorem isBlank_of_firstScan? {x : Char} {rest : List Char} (hx : ¬x.toNat < 128)
    (h : (script.firstScan? (x :: rest)).isSome) : Text.isBlank x := by
  obtain ⟨⟨row, text⟩, hs⟩ := Option.isSome_iff_exists.1 h
  obtain ⟨hr, hs⟩ := firstScan?_eq_some hs
  have hb : row.begins x := by
    refine Bool.of_not_eq_false fun hb => ?_
    rw [scan?_eq_none hr hb] at hs
    cases hs
  have ascii : ∀ row ∈ script.rows, row.name ≠ "WHITESPACE" →
      row.scanner.pattern.beginSets.all CharSet.isAscii := by decide
  obtain ⟨set, hset, ha⟩ := List.any_eq_true.1 hb
  by_cases hn : row.name = "WHITESPACE"
  · obtain rfl : row = whitespace := by
      have : ∀ row ∈ script.rows, row.name = "WHITESPACE" → row = whitespace := by
        simp [script, whitespace, comment, mark, setCommand, pushCommand, string, frame, float, int,
          word, ofParts]
      exact this row hr hn
    have hw : whitespace.scanner.pattern.beginSets = [.blank] := rfl
    obtain rfl : set = .blank := by simpa [hw] using hset
    exact ha
  · exact absurd (CharSet.toNat_lt_of_isAscii (List.all_eq_true.1 (ascii row hr hn) set hset) ha) hx

/-- What follows a token that a script writes: nothing, a blank or a closing mark. -/
def Stops (rest : List Char) : Prop :=
  ∀ x ∈ rest.head?, x ∈ [' ', '\n', '\x7d', ']']

theorem Stops.not {rest : List Char} (h : Stops rest) {p : Char → Bool}
    (hp : [' ', '\n', '\x7d', ']'].all (fun x => !p x) = true) : ∀ x ∈ rest.head?, ¬p x := by
  intro x hx
  have := List.all_eq_true.1 hp x (h x hx)
  simpa using this

theorem Stops.wordAfter {rest : List Char} (h : Stops rest) :
    rest.head?.any Text.isWordChar = false := by
  have := h.not (p := Text.isWordChar) (by decide)
  cases hr : rest.head? with
  | none => rfl
  | some x => simpa [hr] using this x hr

/-! ## Blanks -/

theorem firstScan?_blanks {ws rest : List Char} (hne : ws ≠ []) (hw : ∀ x ∈ ws, Text.isBlank x)
    (hr : ∀ x ∈ rest.head?, ¬Text.isBlank x) :
    script.firstScan? (ws ++ rest) = some (whitespace, ws) := by
  have hw' : ∀ x ∈ ws, CharSet.blank.accepts x := hw
  have hs : whitespace.scan? (ws ++ rest) = some ws :=
    scan?_of_takesFirst hne (takesFirst_someOf hne hw' hr)
  simp [firstScan?, script, hs]

/-- A text is blanks and then what does not begin with a blank. -/
theorem exists_blanks (cs : List Char) : ∃ ws rest, cs = ws ++ rest ∧
    (∀ y ∈ ws, Text.isBlank y) ∧ ∀ y ∈ rest.head?, ¬Text.isBlank y := by
  refine ⟨cs.takeWhile Text.isBlank, cs.dropWhile Text.isBlank,
    List.takeWhile_append_dropWhile.symm, List.all_eq_true.1 List.all_takeWhile, ?_⟩
  intro y hy hb
  have := List.head?_dropWhile_not Text.isBlank cs
  simp [Option.mem_def.1 hy, hb] at this

/-- Blanks are taken as blanks. -/
theorem exists_firstScan?_blank {x : Char} (hx : Text.isBlank x) (rest : List Char) :
    ∃ ws, script.firstScan? (x :: rest) = some (whitespace, ws) ∧ ∀ y ∈ ws, Text.isBlank y := by
  obtain ⟨ws, rest', rfl, hw, hr⟩ := exists_blanks rest
  have all : ∀ y ∈ x :: ws, Text.isBlank y := List.forall_mem_cons.2 ⟨hx, hw⟩
  exact ⟨x :: ws, firstScan?_blanks (List.cons_ne_nil _ _) all hr, all⟩

/-- A blank before a text makes no difference to its tokens. -/
theorem kinds?_blank {x : Char} (hx : Text.isBlank x) (rest : List Char) :
    script.kinds? (x :: rest) = script.kinds? rest := by
  obtain ⟨ws, rest', rfl, hw, hr⟩ := exists_blanks rest
  have blanks {ws : List Char} (hne : ws ≠ []) (hw : ∀ y ∈ ws, Text.isBlank y) :
      script.kinds? (ws ++ rest') = script.kinds? rest' := by
    rw [kinds?_append hne (firstScan?_blanks hne hw hr), kindOf_of_ignorable rfl]
    simp
  rw [← List.cons_append, blanks (List.cons_ne_nil _ _) (by simpa [hx] using hw)]
  cases ws with
  | nil => rfl
  | cons y ws => exact (blanks (List.cons_ne_nil _ _) hw).symm

/-- Blanks before a text make no difference to its tokens. -/
theorem kinds?_blanks {ws : List Char} (hw : ∀ y ∈ ws, Text.isBlank y) (rest : List Char) :
    script.kinds? (ws ++ rest) = script.kinds? rest := by
  induction ws with
  | nil => rfl
  | cons y ws ih =>
      obtain ⟨hy, hws⟩ := List.forall_mem_cons.1 hw
      rw [List.cons_append, kinds?_blank hy, ih hws]

/-! ## Marks -/

theorem firstScan?_mark {name pattern : String} {c : Char}
    (h : script.rows.filter (·.begins c) = [mark name pattern c]) (rest : List Char) :
    script.firstScan? (c :: rest) = some (mark name pattern c, [c]) :=
  firstScan?_of_only h (scan?_of_takesFirst (List.cons_ne_nil _ _)
    (takesFirst_one (by simp [CharSet.accepts]) rest))

end TokenTable

end NodeScript
