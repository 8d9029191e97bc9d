import Mathlib.Data.List.Nodup
import NodeScript.Proofs.Grammar.Notation

/-!
# Texts of grammars

A table has many texts: the alternatives of a rule stand in order, but those of different rules
can alternate, and lines can be laid out in many ways. Whatever text of a table is read, it gives
the table (`read_textOf`).
-/

namespace NodeScript

open Text (AllBlank)

namespace Part

/-- The quote for a literal: a double one unless the literal has one. -/
def quoteFor (text : String) : Char :=
  if '"' ∈ text.toList then '\'' else '"'

theorem quoteFor_notMem {quote : Char} {text : String} (hq : isQuote quote)
    (h : quote ∉ text.toList) : isQuote (quoteFor text) ∧ quoteFor text ∉ text.toList := by
  unfold quoteFor
  split
  · rename_i hd
    have single : quote = '\'' := by
      rcases Bool.or_eq_true_iff.1 hq with he | he
      · exact absurd hd (eq_of_beq he ▸ h)
      · exact eq_of_beq he
    exact ⟨rfl, single ▸ h⟩
  · exact ⟨rfl, ‹_›⟩

/-- A written form of the part. -/
def spelling : Part → List Char
  | .symbol name => name.toList
  | .literal text => quoteFor text :: (text.toList ++ [quoteFor text])
  | .or => ['|']
  | .oneOrMore => ['+']

theorem spells_spelling {part : Part} (h : part.IsWritable) : part.Spells part.spelling := by
  cases part with
  | symbol name => exact .symbol name
  | literal text =>
      obtain ⟨-, quote, hq, ht⟩ := h
      obtain ⟨hquote, hnot⟩ := quoteFor_notMem hq ht
      exact .literal hquote hnot
  | or => exact .or
  | oneOrMore => exact .oneOrMore

theorem newline_notMem_spelling {part : Part} (h : part.IsWritable) : '\n' ∉ part.spelling := by
  cases part with
  | symbol name => exact fun hn => absurd (h.2.2 _ hn).1 (by decide)
  | literal text =>
      have quote : quoteFor text ≠ '\n' := by
        unfold quoteFor
        split <;> decide
      simpa [spelling, quote.symm] using h.1
  | or => decide
  | oneOrMore => decide

end Part

namespace RuleTable

/-! ## Texts -/

/-- The lines are those of the rows in order, with idle lines among them. -/
inductive Lists : List (String × Alternative) → List (List Char) → Prop
  | nil : Lists [] []
  | idle {rows : List (String × Alternative)} {line : List Char} {lines : List (List Char)} :
    IsIdleLine line → Lists rows lines → Lists rows (line :: lines)
  | rule {name : String} {parts : Alternative} {rows : List (String × Alternative)}
    {line : List Char} {lines : List (List Char)} : IsRuleLine name parts line →
    Lists rows lines → Lists ((name, parts) :: rows) (line :: lines)

/-- The alternatives that the rows have of a rule. -/
def alternativesOf (rows : List (String × Alternative)) (name : String) : List Alternative :=
  (rows.filter (·.1 == name)).map Prod.snd

/-- The rows have the alternatives of the table's rules, and no others. -/
structure Spreads (table : RuleTable) (rows : List (String × Alternative)) : Prop where
  /-- The rules first appear in the order of the table. -/
  order : (rows.map Prod.fst).eraseDups = table.keys
  /-- The alternatives of each rule are in order. -/
  alternatives : ∀ e ∈ table.entries, alternativesOf rows e.1 = e.2

/-- The text lists the alternatives of the table's rules, one on a line. -/
def IsTextOf (table : RuleTable) (text : String) : Prop :=
  ∃ rows lines, table.Spreads rows ∧ Lists rows lines ∧ (∀ line ∈ lines, '\n' ∉ line) ∧
    text.toList = ['\n'].intercalate lines

/-- The table has a text. -/
structure IsWritable (table : RuleTable) : Prop where
  nodup : table.keys.Nodup
  alternatives : ∀ e ∈ table.entries, e.2 ≠ []
  names : ∀ e ∈ table.entries, IsName e.1
  parts : ∀ e ∈ table.entries, ∀ parts ∈ e.2, ∀ part ∈ parts, part.IsWritable

/-! ## Rows make tables -/

/-- The table of the rows. -/
def gather (rows : List (String × Alternative)) : RuleTable :=
  ⟨(rows.map Prod.fst).eraseDups.map fun name => (name, alternativesOf rows name)⟩

theorem contains_gather {rows : List (String × Alternative)} {name : String} :
    (gather rows).contains name ↔ name ∈ rows.map Prod.fst := by
  rw [OrderedTable.contains, OrderedTable.get?, List.lookup_isSome_iff, ← List.mem_eraseDups]
  constructor
  · rintro ⟨e, he, hname⟩
    obtain ⟨other, ho, rfl⟩ := List.mem_map.1 he
    rwa [eq_of_beq hname]
  · intro h
    exact ⟨_, List.mem_map_of_mem h, beq_self_eq_true name⟩

theorem alternativesOf_append (rows rows' : List (String × Alternative)) (name : String) :
    alternativesOf (rows ++ rows') name =
      alternativesOf rows name ++ alternativesOf rows' name := by
  simp [alternativesOf, List.filter_append]

theorem alternativesOf_eq_nil {rows : List (String × Alternative)} {name : String}
    (h : name ∉ rows.map Prod.fst) : alternativesOf rows name = [] := by
  rw [alternativesOf, List.map_eq_nil_iff, List.filter_eq_nil_iff]
  intro row hrow hname
  exact h (List.mem_map.2 ⟨row, hrow, eq_of_beq hname⟩)

theorem alternativesOf_concat (rows : List (String × Alternative)) (row : String × Alternative)
    (name : String) : alternativesOf (rows ++ [row]) name =
      alternativesOf rows name ++ if row.1 = name then [row.2] else [] := by
  rw [alternativesOf_append]
  by_cases h : row.1 = name <;> simp [alternativesOf, h]

theorem names_concat (rows : List (String × Alternative)) (row : String × Alternative) :
    ((rows ++ [row]).map Prod.fst).eraseDups = (rows.map Prod.fst).eraseDups ++
      if row.1 ∈ rows.map Prod.fst then [] else [row.1] := by
  rw [List.map_append, List.eraseDups_append]
  by_cases h : row.1 ∈ rows.map Prod.fst
  · have known : [row.1].removeAll (rows.map Prod.fst) = [] :=
      List.filter_eq_nil_iff.2 (by simpa using h)
    rw [if_pos h, List.map_singleton, known, List.eraseDups_nil]
  · have fresh : [row.1].removeAll (rows.map Prod.fst) = [row.1] :=
      List.filter_eq_self.2 (by simpa using h)
    rw [if_neg h, List.map_singleton, fresh]
    rfl

/-- One more row adds an alternative to its rule, or a rule at the end. -/
theorem push_gather (rows : List (String × Alternative)) (row : String × Alternative) :
    (gather rows).push row.1 row.2 = gather (rows ++ [row]) := by
  have later : gather (rows ++ [row]) = ⟨((rows.map Prod.fst).eraseDups ++
      if row.1 ∈ rows.map Prod.fst then [] else [row.1]).map fun name =>
        (name, alternativesOf rows name ++ if row.1 = name then [row.2] else [])⟩ := by
    simp only [gather, names_concat, alternativesOf_concat]
  rw [later, push, OrderedTable.alter]
  by_cases hc : row.1 ∈ rows.map Prod.fst
  · rw [if_pos (contains_gather.2 hc), if_pos hc, List.append_nil, gather, List.map_map]
    congr 1
    refine List.map_congr_left fun name _ => ?_
    by_cases he : name = row.1 <;> simp [he, Ne.symm]
  · rw [if_neg (mt contains_gather.1 hc), if_neg hc, List.map_append, gather, List.map_singleton,
      alternativesOf_eq_nil hc, if_pos rfl]
    congr 2
    refine List.map_congr_left fun name hname => ?_
    have hne : row.1 ≠ name := by
      rintro rfl
      exact hc (List.mem_eraseDups.1 hname)
    rw [if_neg hne, List.append_nil]

theorem foldl_push (rows : List (String × Alternative)) :
    rows.foldl (fun table row => table.push row.1 row.2) .empty = gather rows := by
  induction rows using List.reverseRecOn with
  | nil => rfl
  | append_singleton rows row ih =>
      rw [List.foldl_append, ih, List.foldl_cons, List.foldl_nil, push_gather]

theorem Spreads.gather_eq {table : RuleTable} {rows : List (String × Alternative)}
    (h : table.Spreads rows) : gather rows = table := by
  rw [gather, h.order, OrderedTable.keys, List.map_map]
  have entries : table.entries.map ((fun name => (name, alternativesOf rows name)) ∘ Prod.fst) =
      table.entries.map id :=
    List.map_congr_left fun e he => Prod.ext rfl (h.alternatives e he)
  rw [entries, List.map_id]

/-! ## Reading -/

theorem addLines_intercalate {line : List Char} (h : '\n' ∉ line) (table : RuleTable)
    (number : Nat) (lines : List (List Char)) :
    addLines table number (Text.lines (['\n'].intercalate (line :: lines))) =
      let rest := Text.lines (['\n'].intercalate lines)
      if (content line).isEmpty then addLines table (number + 1) rest
      else
        match ruleOfLine number (content line) with
        | .error e => .error e
        | .ok (name, alternative) => addLines (table.push name alternative) (number + 1) rest := by
  have first {line' : List Char} (hl : line = line' ∨ line = line' ++ ['\r'])
      (rest : List (List Char)) : addLines table number (line' :: rest) =
        if (content line).isEmpty then addLines table (number + 1) rest
        else
          match ruleOfLine number (content line) with
          | .error e => .error e
          | .ok (name, alternative) =>
            addLines (table.push name alternative) (number + 1) rest := by
    rcases hl with rfl | rfl
    · rfl
    · rw [content_concat_return]
      rfl
  cases lines with
  | nil =>
      rw [List.intercalate_singleton, Text.lines_of_notMem h]
      by_cases he : line = []
      · subst he
        rfl
      · rw [if_neg (by simpa using he)]
        exact first (.inl rfl) []
  | cons next lines =>
      obtain ⟨line', hl, heq⟩ := Text.exists_lines_eq_cons h (['\n'].intercalate (next :: lines))
      rw [List.intercalate_cons_cons, List.append_assoc, List.singleton_append, heq]
      exact first hl _

/-- Lines of rows add the rows to a table. -/
theorem addLines_lists {rows : List (String × Alternative)} {lines : List (List Char)}
    (h : Lists rows lines) (hrows : ∀ row ∈ rows, IsName row.1 ∧ ∀ part ∈ row.2, part.IsWritable)
    (hlines : ∀ line ∈ lines, '\n' ∉ line) (table : RuleTable) (number : Nat) :
    addLines table number (Text.lines (['\n'].intercalate lines)) =
      .ok (rows.foldl (fun table row => table.push row.1 row.2) table) := by
  induction h generalizing table number with
  | nil => rfl
  | idle hi _ ih =>
      obtain ⟨hl, hrest⟩ := List.forall_mem_cons.1 hlines
      simp only [addLines_intercalate hl, content_idleLine hi, List.isEmpty_nil, if_true,
        ih hrows hrest]
  | @rule name parts rows line lines hr _ ih =>
      obtain ⟨hl, hrest⟩ := List.forall_mem_cons.1 hlines
      obtain ⟨⟨hname, hparts⟩, hmore⟩ := List.forall_mem_cons.1 hrows
      obtain ⟨hne, hrule⟩ := content_ruleLine hname hparts hr
      have hfull : (content line).isEmpty = false := by simpa using hne
      simp only [addLines_intercalate hl, hfull, hrule, Bool.false_eq_true, if_false,
        ih hmore hrest, List.foldl_cons]

variable {table : RuleTable}

theorem IsWritable.row (h : table.IsWritable) {rows : List (String × Alternative)}
    (hs : table.Spreads rows) : ∀ row ∈ rows, IsName row.1 ∧ ∀ part ∈ row.2, part.IsWritable := by
  intro row hrow
  have known : row.1 ∈ table.keys := by
    rw [← hs.order, List.mem_eraseDups]
    exact List.mem_map_of_mem hrow
  obtain ⟨e, he, hname⟩ := List.mem_map.1 known
  have listed : row.2 ∈ e.2 := by
    rw [← hs.alternatives e he]
    exact List.mem_map_of_mem (List.mem_filter.2 ⟨hrow, by simp [hname]⟩)
  exact ⟨hname ▸ h.names e he, h.parts e he row.2 listed⟩

theorem IsWritable.read (h : table.IsWritable) {text : String} (ht : table.IsTextOf text) :
    RuleTable.read text = .ok table := by
  obtain ⟨rows, lines, hs, hl, hlines, htext⟩ := ht
  rw [RuleTable.read, htext, addLines_lists hl (h.row hs) hlines]
  exact congrArg _ ((foldl_push rows).trans hs.gather_eq)

/-! ## Writing -/

/-- The rows of a table, rule by rule. -/
def rows (table : RuleTable) : List (String × Alternative) :=
  table.entries.flatMap fun e => e.2.map (e.1, ·)

/-- A line for each row, with a space before each part. -/
def lineOf (row : String × Alternative) : List Char :=
  row.1.toList ++ ([' '] ++ ([':', ':', '='] ++ row.2.flatMap fun part => ' ' :: part.spelling))

/-- A text of the table. -/
def write (table : RuleTable) : String :=
  String.ofList (['\n'].intercalate (table.rows.map lineOf))

theorem eraseDups_map_const {α : Type} {as : List α} (h : as ≠ []) (name : String) :
    (as.map fun _ => name).eraseDups = [name] := by
  obtain ⟨a, as, rfl⟩ := List.exists_cons_of_ne_nil h
  simp [List.eraseDups_cons]

theorem mem_names_of_mem_rows {entries : List (String × List Alternative)} {name : String}
    (h : name ∈ (entries.flatMap fun e => e.2.map (e.1, ·)).map Prod.fst) :
    name ∈ entries.map Prod.fst := by
  obtain ⟨row, hrow, rfl⟩ := List.mem_map.1 h
  obtain ⟨e, he, hrow⟩ := List.mem_flatMap.1 hrow
  obtain ⟨parts, -, rfl⟩ := List.mem_map.1 hrow
  exact List.mem_map_of_mem he

theorem names_flatMap {entries : List (String × List Alternative)}
    (hn : (entries.map Prod.fst).Nodup) (ha : ∀ e ∈ entries, e.2 ≠ []) :
    ((entries.flatMap fun e => e.2.map (e.1, ·)).map Prod.fst).eraseDups =
      entries.map Prod.fst := by
  induction entries with
  | nil => rfl
  | cons e entries ih =>
      obtain ⟨hfresh, hn⟩ := List.nodup_cons.1 hn
      obtain ⟨he, ha⟩ := List.forall_mem_cons.1 ha
      have apart : ((entries.flatMap fun e => e.2.map (e.1, ·)).map Prod.fst).removeAll
          ((e.2.map (e.1, ·)).map Prod.fst) =
            (entries.flatMap fun e => e.2.map (e.1, ·)).map Prod.fst := by
        refine List.filter_eq_self.2 fun name hname => ?_
        have other : name ∉ (e.2.map (e.1, ·)).map Prod.fst := by
          intro hm
          obtain ⟨row, hrow, rfl⟩ := List.mem_map.1 hm
          obtain ⟨parts, -, rfl⟩ := List.mem_map.1 hrow
          exact hfresh (mem_names_of_mem_rows hname)
        simp only [List.elem_eq_mem, other, decide_false, Bool.not_false]
      rw [List.flatMap_cons, List.map_append, List.eraseDups_append, apart, ih hn ha,
        List.map_map]
      exact congrArg (· ++ _) (eraseDups_map_const he e.1)

theorem alternativesOf_flatMap {entries : List (String × List Alternative)}
    (hn : (entries.map Prod.fst).Nodup) : ∀ e ∈ entries,
    alternativesOf (entries.flatMap fun e => e.2.map (e.1, ·)) e.1 = e.2 := by
  induction entries with
  | nil => simp
  | cons first entries ih =>
      obtain ⟨hfresh, hn⟩ := List.nodup_cons.1 hn
      refine List.forall_mem_cons.2 ⟨?_, fun e he => ?_⟩
      · rw [List.flatMap_cons, alternativesOf_append,
          alternativesOf_eq_nil (mt mem_names_of_mem_rows hfresh), List.append_nil]
        simp [alternativesOf, List.filter_map, Function.comp_def]
      · have other : e.1 ∉ (first.2.map (first.1, ·)).map Prod.fst := by
          intro h
          obtain ⟨row, hrow, hname⟩ := List.mem_map.1 h
          obtain ⟨parts, -, rfl⟩ := List.mem_map.1 hrow
          exact hfresh (List.mem_map.2 ⟨e, he, hname.symm⟩)
        rw [List.flatMap_cons, alternativesOf_append, alternativesOf_eq_nil other, List.nil_append,
          ih hn e he]

theorem spreads_rows (h : table.IsWritable) : table.Spreads table.rows :=
  ⟨names_flatMap h.nodup h.alternatives, alternativesOf_flatMap h.nodup⟩

theorem isWritten_spellings {parts : Alternative} (h : ∀ part ∈ parts, part.IsWritable) :
    parts.IsWritten (parts.flatMap fun part => ' ' :: part.spelling) := by
  induction parts with
  | nil => exact .nil
  | cons part rest ih =>
      obtain ⟨hpart, hrest⟩ := List.forall_mem_cons.1 h
      refine .cons (.singleton rfl) (Part.spells_spelling hpart) (ih hrest) fun _ ho => ?_
      cases rest with
      | nil => simp at ho
      | cons => rfl

theorem isRuleLine_lineOf {row : String × Alternative} (h : ∀ part ∈ row.2, part.IsWritable) :
    IsRuleLine row.1 row.2 (lineOf row) := by
  have line : IsRuleLine row.1 row.2 ([] ++ (row.1.toList ++ ([' '] ++ ([':', ':', '='] ++
      (row.2.flatMap (fun part => ' ' :: part.spelling) ++ []))))) :=
    .mk .nil (.singleton rfl) (isWritten_spellings h) (.blanks .nil)
  rwa [List.append_nil] at line

theorem newline_notMem_lineOf {row : String × Alternative} (hn : IsName row.1)
    (hp : ∀ part ∈ row.2, part.IsWritable) : '\n' ∉ lineOf row := by
  have name : '\n' ∉ row.1.toList := fun h => absurd (hn.plain _ h).1 (by decide)
  have parts : '\n' ∉ row.2.flatMap fun part => ' ' :: part.spelling := by
    intro h
    obtain ⟨part, hpart, h⟩ := List.mem_flatMap.1 h
    rcases List.mem_cons.1 h with h | h
    · exact absurd h (by decide)
    · exact Part.newline_notMem_spelling (hp part hpart) h
  simp [lineOf, name, parts]

theorem lists_lineOf {rows : List (String × Alternative)}
    (h : ∀ row ∈ rows, ∀ part ∈ row.2, part.IsWritable) : Lists rows (rows.map lineOf) := by
  induction rows with
  | nil => exact .nil
  | cons row rows ih =>
      obtain ⟨hrow, hrows⟩ := List.forall_mem_cons.1 h
      exact .rule (isRuleLine_lineOf hrow) (ih hrows)

theorem isTextOf_write (h : table.IsWritable) : table.IsTextOf table.write := by
  have spread := spreads_rows h
  have writable := h.row spread
  refine ⟨table.rows, table.rows.map lineOf, spread,
    lists_lineOf fun row hrow => (writable row hrow).2, fun line hline => ?_, String.toList_ofList⟩
  obtain ⟨row, hrow, rfl⟩ := List.mem_map.1 hline
  obtain ⟨hname, hparts⟩ := writable row hrow
  exact newline_notMem_lineOf hname hparts

/-- Every table of writable rules has a text, and whatever text of it is read, in any layout and
with the alternatives of different rules in turn, gives the table. -/
theorem read_textOf (h : table.IsWritable) : (∃ text, table.IsTextOf text) ∧
    ∀ text, table.IsTextOf text → RuleTable.read text = .ok table :=
  ⟨⟨_, isTextOf_write h⟩, fun _ => h.read⟩

/-- Lists of items, with a comment mark and a double quote for literals. -/
def lists : RuleTable :=
  ⟨[("list", [[.literal "//", .symbol "item", .oneOrMore, .or, .literal "\""], []]),
    ("item", [[.symbol "WORD"]])]⟩

/-- A text of the lists, with an item between them. -/
def listsText : String :=
  "// lists\r\nlist::=\"//\" item+|'\"'\t// of \"items\nitem ::= WORD\nlist ::= "

theorem isWritable_lists : lists.IsWritable := by
  have word : (Part.symbol "WORD").IsWritable :=
    Part.isWritable_symbol (by decide) (by decide) rfl
  have item : (Part.symbol "item").IsWritable :=
    Part.isWritable_symbol (by decide) (by decide) rfl
  have slashes : (Part.literal "//").IsWritable := ⟨by decide, '"', rfl, by decide⟩
  have quote : (Part.literal "\"").IsWritable := ⟨by decide, '\'', rfl, by decide⟩
  constructor
  case nodup => decide
  case alternatives => decide
  case names =>
    simp only [lists, List.forall_mem_cons]
    exact ⟨isName_of (by decide) rfl (by decide) (by decide),
      isName_of (by decide) rfl (by decide) (by decide), by simp⟩
  case parts =>
    simp only [lists, List.forall_mem_cons]
    exact ⟨⟨⟨slashes, item, trivial, trivial, quote, by simp⟩, by simp, by simp⟩,
      ⟨⟨word, by simp⟩, by simp⟩, by simp⟩

theorem isTextOf_listsText : lists.IsTextOf listsText := by
  have none := AllBlank.nil
  have space : AllBlank [' '] := .singleton rfl
  have note : IsIdleLine ([] ++ '/' :: '/' :: " lists\r".toList) := .comment _ none
  have items : IsRuleLine "list"
      [.literal "//", .symbol "item", .oneOrMore, .or, .literal "\""]
      ([] ++ ("list".toList ++ ([] ++ ([':', ':', '='] ++
        (([] ++ (('"' :: ("//".toList ++ ['"'])) ++ ([' '] ++ ("item".toList ++
          ([] ++ (['+'] ++ ([] ++ (['|'] ++ ([] ++ (('\'' :: ("\"".toList ++ ['\''])) ++
            [])))))))))) ++ ([] ++ '\t' :: '/' :: '/' :: " of \"items".toList)))))) :=
    .mk none none
      (.cons none (.literal rfl (by decide)) (.cons space (.symbol "item") (.cons none .oneOrMore
        (.cons none .or (.cons none (.literal rfl (by decide)) .nil (by decide)) (by decide))
        (by decide)) (by decide)) (by decide))
      (.comment _ none rfl)
  have item : IsRuleLine "item" [.symbol "WORD"]
      ([] ++ ("item".toList ++ ([' '] ++ ([':', ':', '='] ++
        (([' '] ++ ("WORD".toList ++ [])) ++ []))))) :=
    .mk none space (.cons space (.symbol "WORD") .nil (by decide)) (.blanks none)
  have empty : IsRuleLine "list" []
      ([] ++ ("list".toList ++ ([' '] ++ ([':', ':', '='] ++ ([] ++ [' ']))))) :=
    .mk none space .nil (.blanks space)
  refine ⟨_, _, ⟨?order, ?alternatives⟩,
    .idle note (.rule items (.rule item (.rule empty .nil))), by decide, by decide⟩
  case order => decide
  case alternatives => decide

theorem read_textOf_lists : lists.IsWritable ∧ lists.IsTextOf listsText ∧
    RuleTable.read listsText = .ok lists := by
  obtain ⟨-, reads⟩ := read_textOf isWritable_lists
  exact ⟨isWritable_lists, isTextOf_listsText, reads _ isTextOf_listsText⟩

end RuleTable

end NodeScript
