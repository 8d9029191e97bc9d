import NodeScript.Proofs.Pattern.Following
import NodeScript.Proofs.Token.Chain
import NodeScript.Proofs.Token.Literals

/-!
# Joining texts

Texts on lines of their own are cut into tokens one after the other: the tokens of both together are
those of the first and then those of the second. A token ends at the end of a line, except strings
and blanks, and strings end at their closing quote.
-/

namespace NodeScript

namespace TokenRow

open Pattern

/-- A row whose pattern never reads a character takes the same before it as at the end. -/
theorem scan?_followedBy {name pattern tag : String} {parts : List Pattern} {x : Char}
    (hx : Text.isWordChar x = false)
    (h : (ofParts name pattern tag parts).scanner.pattern.stopsAt x) (rest more : List Char) :
    (ofParts name pattern tag parts).scan? (rest ++ x :: more) =
      (ofParts name pattern tag parts).scan? rest := by
  have ends := ends_followedBy hx more _ h (.start rest)
  have hend : ∀ c ∈ endsAll parts (.start rest), c.offset ≤ rest.length := by
    intro c hc
    obtain ⟨text, hr, hc, -⟩ := endsAll_follow hc
    rw [hc, show rest = text ++ c.rest from hr]
    simp
  change (concat (.anchor .textStart :: parts)).ends (.start (rest ++ x :: more)) =
    ((concat (.anchor .textStart :: parts)).ends (.start rest)).map _ at ends
  rw [ends_concat_textStart, ends_concat_textStart] at ends
  rw [scan?, scan?, find?_scanner, find?_scanner, ends]
  generalize endsAll parts (.start rest) = cs at hend
  cases cs with
  | nil => rfl
  | cons c _ =>
      have hc : c.offset ≤ rest.length := hend c List.mem_cons_self
      simp [Cursor.followedBy, List.take_append_of_le_length hc]

end TokenRow

namespace TokenTable

open TokenRow

variable {row : TokenRow} {x : Char} {rest text : List Char}

theorem stopsAt_lineFeed : ∀ row ∈ script.rows, row.name ∉ ["WHITESPACE", "STRING"] →
    row.scanner.pattern.stopsAt '\n' := by
  decide

theorem beginSets_of_name : ∀ row ∈ script.rows, row.name ∈ ["WHITESPACE", "STRING"] →
    row.scanner.pattern.beginSets = [.blank] ∨
      row.scanner.pattern.beginSets = [.single '"'] := by
  decide

/-- A row takes the same before the end of a line, where neither a blank nor a string begins. -/
theorem scan?_lineFeed (hrow : row ∈ script.rows) (hb : Text.isBlank x = false) (hq : x ≠ '"')
    (rest more : List Char) : row.scan? (x :: rest ++ '\n' :: more) = row.scan? (x :: rest) := by
  by_cases hn : row.name ∈ ["WHITESPACE", "STRING"]
  · have hx : row.begins x = false := by
      rcases beginSets_of_name row hrow hn with hs | hs
      · simp [begins, Pattern.begins, hs, CharSet.accepts, hb]
      · simp [begins, Pattern.begins, hs, CharSet.accepts, hq]
    rw [List.cons_append, scan?_eq_none hrow hx, scan?_eq_none hrow hx]
  · have hs := stopsAt_lineFeed row hrow hn
    obtain ⟨name, pattern, tag, parts, rfl⟩ := script_rows hrow
    exact scan?_followedBy (by decide) hs _ _

/-- Where every row takes the same, the same is taken first. -/
theorem firstScan?_congr {table : TokenTable} {rest rest' : List Char}
    (h : ∀ row ∈ table.rows, row.scan? rest' = row.scan? rest) :
    table.firstScan? rest' = table.firstScan? rest := by
  unfold firstScan?
  generalize table.rows = rows at h
  induction rows with
  | nil => rfl
  | cons row rows ih =>
      obtain ⟨hr, hrs⟩ := List.forall_mem_cons.1 h
      rw [List.findSome?_cons, List.findSome?_cons, hr, ih hrs]

/-- What is taken first of a text, unless it is blanks, is also taken first of the text with a line
after it. -/
theorem firstScan?_lineFeed (hb : Text.isBlank x = false)
    (h : script.firstScan? (x :: rest) = some (row, text)) (more : List Char) :
    script.firstScan? (x :: rest ++ '\n' :: more) = some (row, text) := by
  obtain ⟨hrow, hs⟩ := firstScan?_eq_some h
  by_cases hq : x = '"'
  · -- a string goes on over the end of a line, but this one is closed
    subst hq
    have honly : script.rows.filter (·.begins '"') = [string] := by rfl
    have hx : row.begins '"' := Bool.of_not_eq_false fun hx => by
      rw [scan?_eq_none hrow hx] at hs
      cases hs
    obtain rfl : row = string := by
      have : row ∈ script.rows.filter (·.begins '"') := List.mem_filter.2 ⟨hrow, hx⟩
      simpa [honly] using this
    obtain ⟨pieces, hp, rfl⟩ := pieces_of_scan? hs
    obtain ⟨-, after, hr⟩ := append_of_firstScan? h
    rw [hr, List.append_assoc]
    exact firstScan?_pieces hp _
  · rw [← h]
    exact firstScan?_congr fun row hrow => scan?_lineFeed hrow hb hq rest more

/-- The kinds of the tokens of two texts on lines of their own are those of the first and then those
of the second. -/
theorem kinds?_lineFeed {first more : List Char} {ks : List (String × String)}
    (h : script.kinds? first = some ks) :
    script.kinds? (first ++ '\n' :: more) = (script.kinds? more).map (ks ++ ·) := by
  obtain ⟨links, stop, chain, rfl⟩ := exists_chain_of_kinds? script_isTied h
  clear h
  generalize (0 : Nat) = position, hl : [] = left at chain
  induction chain with
  | nil =>
      subst hl
      rw [List.nil_append, kinds?_blank (by decide)]
      simp
  | @cons row text rest left links position stop first chain ih =>
      have hs := firstScan?_eq_some_iff.2 first
      obtain ⟨x, tail, rfl⟩ := List.exists_cons_of_ne_nil first.ne_nil
      have step : script.kinds? (x :: tail ++ (rest ++ '\n' :: more)) =
          (script.kinds? (rest ++ '\n' :: more)).map (kindOf row (x :: tail) ++ ·) := by
        by_cases hb : Text.isBlank x
        · -- blanks go on over the end of the line, but they have no kinds
          obtain ⟨ws, hws, blank⟩ := exists_firstScan?_blank hb (tail ++ rest)
          obtain ⟨rfl, rfl⟩ := Prod.mk.inj (Option.some.inj (hs.symm.trans hws))
          rw [kinds?_blanks blank, kindOf_of_ignorable rfl]
          simp
        · have joined : script.firstScan? (x :: tail ++ rest ++ '\n' :: more) = _ :=
            firstScan?_lineFeed (Bool.of_not_eq_true hb) hs more
          rw [List.append_assoc] at joined
          exact kinds?_append first.ne_nil joined
      rw [List.append_assoc, step, ih hl, List.flatMap_cons, Option.map_map]
      simp [Function.comp_def]

end TokenTable

end NodeScript
