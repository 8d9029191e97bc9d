import NodeScript.Grammar.RuleTable
import NodeScript.Proofs.Text.Lines

/-!
# How rules are written

A rule is written on a line, its parts in order with blanks between them where two operands would
touch, and a comment may follow. Three scanners read such a line: one takes the comment off, one
finds where the parts begin, one splits them. They agree on what is quoted, so that each of them
sees the written pieces as they are.
-/

namespace NodeScript

open Text (AllBlank IsTrimmed)

/-! ## Pieces -/

namespace Part

def isOperand : Part → Bool
  | .symbol _ => true
  | .literal _ => true
  | .or => false
  | .oneOrMore => false

/-- The part can be written: a symbol as a word, a literal in quotes of a kind that is not in it. -/
def IsWritable : Part → Prop
  | .symbol name => name ≠ "" ∧ ¬['/', '/'] <:+: name.toList ∧
      ∀ c ∈ name.toList, Text.isBlank c = false ∧ isQuote c = false ∧ c ≠ '|' ∧ c ≠ '+'
  | .literal text => '\n' ∉ text.toList ∧ ∃ quote, isQuote quote ∧ quote ∉ text.toList
  | .or => True
  | .oneOrMore => True

theorem isWritable_symbol {name : String} (hne : name ≠ "") (hc : ¬['/', '/'] <:+: name.toList)
    (h : name.toList.all fun c => !Text.isBlank c && !isQuote c && c != '|' && c != '+') :
    (symbol name).IsWritable :=
  ⟨hne, hc, by simpa [and_assoc] using h⟩

/-- The characters are a written form of the part. -/
inductive Spells : Part → List Char → Prop
  | symbol (name : String) : Spells (.symbol name) name.toList
  | literal {quote : Char} {text : String} : isQuote quote → quote ∉ text.toList →
    Spells (.literal text) (quote :: (text.toList ++ [quote]))
  | or : Spells .or ['|']
  | oneOrMore : Spells .oneOrMore ['+']

end Part

/-- The characters are the parts in order, each after any number of blanks, and after at least one
where it is an operand that follows an operand. -/
inductive Alternative.IsWritten : Alternative → List Char → Prop
  | nil : IsWritten [] []
  | cons {part : Part} {rest : Alternative} {gap word more : List Char} :
    AllBlank gap → part.Spells word → IsWritten rest more →
    (part.isOperand → rest.head?.any Part.isOperand → more.head?.any Text.isBlank) →
    IsWritten (part :: rest) (gap ++ (word ++ more))

/-- The name of a rule can be written. -/
structure RuleTable.IsName (name : String) : Prop where
  ne_empty : name ≠ ""
  plain : ∀ c ∈ name.toList, Text.isBlank c = false ∧ Part.isQuote c = false
  no_separator : ¬[':', ':', '='] <:+: name.toList
  no_comment : ¬['/', '/'] <:+: name.toList

theorem RuleTable.isName_of {name : String} (hne : name ≠ "")
    (h : name.toList.all fun c => !Text.isBlank c && !Part.isQuote c)
    (hs : ¬[':', ':', '='] <:+: name.toList) (hc : ¬['/', '/'] <:+: name.toList) : IsName name :=
  ⟨hne, by simpa using h, hs, hc⟩

/-- What stands at the end of a line: blanks, and perhaps a comment that is set off by one. -/
inductive IsRemark : List Char → Prop
  | blanks {gap : List Char} : AllBlank gap → IsRemark gap
  | comment {gap : List Char} {x : Char} (words : List Char) : AllBlank gap → Text.isBlank x →
    IsRemark (gap ++ x :: '/' :: '/' :: words)

/-- The line is one of the rule `name` with these parts for an alternative. -/
inductive IsRuleLine (name : String) (parts : Alternative) : List Char → Prop
  | mk {start gap body remark : List Char} : AllBlank start → AllBlank gap → parts.IsWritten body →
    IsRemark remark → IsRuleLine name parts
      (start ++ (name.toList ++ (gap ++ ([':', ':', '='] ++ (body ++ remark)))))

/-- The line is blank, or has nothing but a comment. -/
inductive IsIdleLine : List Char → Prop
  | blank {gap : List Char} : AllBlank gap → IsIdleLine gap
  | comment {gap : List Char} (words : List Char) : AllBlank gap →
    IsIdleLine (gap ++ '/' :: '/' :: words)

/-! ## Characters between words -/

theorem plain_of_isBlank {c : Char} (h : Text.isBlank c) :
    Part.isQuote c = false ∧ c ≠ '|' ∧ c ≠ '+' ∧ c ≠ '/' ∧ c ≠ ':' ∧ c ≠ '=' := by
  have unlike {x : Char} (hx : Text.isBlank x = false) : c ≠ x := by
    rintro rfl
    rw [h] at hx
    cases hx
  refine ⟨?_, unlike (by decide), unlike (by decide), unlike (by decide), unlike (by decide),
    unlike (by decide)⟩
  simp [Part.isQuote, unlike (show Text.isBlank '"' = false by decide),
    unlike (show Text.isBlank '\'' = false by decide)]

/-- A word that is not quoted ends here. -/
def EndsWord (rest : List Char) : Prop :=
  ∀ c ∈ rest.head?, Text.isBlank c ∨ c = '|' ∨ c = '+'

theorem EndsWord.nil : EndsWord [] := by
  simp [EndsWord]

theorem EndsWord.head?_ne {rest : List Char} (h : EndsWord rest) : rest.head? ≠ some '/' := by
  intro hr
  have slash := h '/' hr
  revert slash
  decide

theorem EndsWord.of_blank {rest : List Char} (h : rest.head?.any Text.isBlank) : EndsWord rest := by
  intro c hc
  rw [Option.mem_def.1 hc] at h
  exact .inl h

theorem Text.AllBlank.endsWord {gap rest : List Char} (hg : AllBlank gap) (hr : EndsWord rest) :
    EndsWord (gap ++ rest) := by
  cases gap with
  | nil => exact hr
  | cons x gap => exact .of_blank (by simpa using hg x List.mem_cons_self)

/-- A written part ends in no blank. -/
theorem Part.Spells.last {part : Part} {word : List Char} (h : part.Spells word)
    (hp : part.IsWritable) : word ≠ [] ∧ ∀ c ∈ word.getLast?, Text.isBlank c = false := by
  cases h with
  | symbol name =>
      obtain ⟨hne, -, hplain⟩ := hp
      exact ⟨by simpa using hne, fun c hc => (hplain c (List.mem_of_getLast? hc)).1⟩
  | @literal quote text hq _ =>
      have notBlank : Text.isBlank quote = false := by
        refine Bool.eq_false_iff.2 fun hb => ?_
        rw [(plain_of_isBlank hb).1] at hq
        cases hq
      simpa [List.getLast?_cons] using notBlank
  | or | oneOrMore =>
      refine ⟨List.cons_ne_nil _ _, fun c hc => ?_⟩
      obtain rfl := Option.some.inj hc
      rfl

namespace Alternative.IsWritten

variable {parts : Alternative} {body rest : List Char}

/-- A word that is not quoted ends where parts begin that may follow it. -/
theorem endsWord (h : parts.IsWritten body)
    (hs : parts.head?.any Part.isOperand → body.head?.any Text.isBlank) (hr : EndsWord rest) :
    EndsWord (body ++ rest) := by
  cases h with
  | nil => exact hr
  | @cons part _ gap word more hg hw _ _ =>
      by_cases ho : part.isOperand
      · have blank := hs (by simpa using ho)
        refine .of_blank ?_
        rw [List.head?_append]
        cases hh : (gap ++ (word ++ more)).head? with
        | none => simp [hh] at blank
        | some x => simpa [hh] using blank
      · rw [List.append_assoc]
        refine hg.endsWord fun c hc => ?_
        cases hw with
        | symbol => exact absurd rfl ho
        | literal => exact absurd rfl ho
        | or => exact .inr (.inl (Option.some.inj hc).symm)
        | oneOrMore => exact .inr (.inr (Option.some.inj hc).symm)

/-- Parts end in no blank. -/
theorem last (h : parts.IsWritten body) (hp : ∀ part ∈ parts, part.IsWritable) :
    ∀ c ∈ body.getLast?, Text.isBlank c = false := by
  induction h with
  | nil => simp
  | @cons part rest gap word more _ hw _ _ ih =>
      obtain ⟨hpart, hrest⟩ := List.forall_mem_cons.1 hp
      intro c hc
      rw [List.getLast?_append, List.getLast?_append] at hc
      cases hm : more.getLast? with
      | some last => exact ih hrest c (by simpa [hm] using hc)
      | none =>
          obtain ⟨hne, hlast⟩ := hw.last hpart
          obtain ⟨x, hx⟩ := Option.isSome_iff_exists.1 (List.getLast?_isSome.2 hne)
          rw [hm, hx] at hc
          exact hlast c (hx.trans hc)

end Alternative.IsWritten

theorem IsRemark.endsWord {remark : List Char} (h : IsRemark remark) : EndsWord remark := by
  cases h with
  | blanks hg =>
      have := hg.endsWord .nil
      rwa [List.append_nil] at this
  | comment words hg hx => exact hg.endsWord (.of_blank (by simpa using hx))

/-! ## Comments -/

namespace RuleTable

variable {word rest : List Char}

theorem stripComment_cons {c : Char} (hq : Part.isQuote c = false) (hc : c ≠ '/')
    (rest : List Char) : stripComment none (c :: rest) = c :: stripComment none rest := by
  simp [stripComment, hq, hc]

theorem stripComment_blanks {gap : List Char} (h : AllBlank gap) (rest : List Char) :
    stripComment none (gap ++ rest) = gap ++ stripComment none rest := by
  induction gap with
  | nil => rfl
  | cons x gap ih =>
      obtain ⟨hx, hgap⟩ := List.forall_mem_cons.1 h
      obtain ⟨hq, -, -, hs, -⟩ := plain_of_isBlank hx
      rw [List.cons_append, stripComment_cons hq hs, ih hgap, List.cons_append]

/-- Where no two slashes stand together no comment begins. -/
theorem stripComment_word (hq : ∀ c ∈ word, Part.isQuote c = false) (hs : ¬['/', '/'] <:+: word)
    (hr : rest.head? ≠ some '/') :
    stripComment none (word ++ rest) = word ++ stripComment none rest := by
  induction word with
  | nil => rfl
  | cons c word ih =>
      obtain ⟨hc, hword⟩ := List.forall_mem_cons.1 hq
      have later := ih hword fun h => hs (h.trans (List.suffix_cons c word).isInfix)
      have apart : ¬(c = '/' ∧ (word ++ rest).head? = some '/') := by
        rintro ⟨rfl, hh⟩
        cases word with
        | nil => exact hr hh
        | cons d word =>
            obtain rfl := Option.some.inj hh
            exact hs ⟨[], word, rfl⟩
      rw [List.cons_append, stripComment, hc, if_neg (by simp), if_neg apart, later,
        List.cons_append]

/-- What is in quotes is no comment. -/
theorem stripComment_quoted {quote : Char} {text : List Char} (h : quote ∉ text)
    (rest : List Char) : stripComment (some quote) (text ++ quote :: rest) =
      text ++ quote :: stripComment none rest := by
  induction text with
  | nil => simp [stripComment]
  | cons c text ih =>
      obtain ⟨hc, htext⟩ : c ≠ quote ∧ quote ∉ text := by
        simpa [eq_comm] using h
      rw [List.cons_append, stripComment, if_neg hc, ih htext, List.cons_append]

theorem stripComment_spelled {part : Part} (hw : part.IsWritable) (hs : part.Spells word)
    (hr : part.isOperand → EndsWord rest) :
    stripComment none (word ++ rest) = word ++ stripComment none rest := by
  cases hs with
  | symbol name =>
      obtain ⟨-, hslash, hplain⟩ := hw
      exact stripComment_word (fun c hc => (hplain c hc).2.1) hslash (hr rfl).head?_ne
  | @literal quote text hq ht =>
      have quoted := stripComment_quoted ht rest
      simp [stripComment, hq, quoted]
  | or => exact stripComment_cons rfl (by decide) rest
  | oneOrMore => exact stripComment_cons rfl (by decide) rest

theorem stripComment_written {parts : Alternative} {body : List Char} (h : parts.IsWritten body)
    (hp : ∀ part ∈ parts, part.IsWritable) (hr : EndsWord rest) :
    stripComment none (body ++ rest) = body ++ stripComment none rest := by
  induction h with
  | nil => rfl
  | @cons part more gap word text hg hw hm hs ih =>
      obtain ⟨hpart, hmore⟩ := List.forall_mem_cons.1 hp
      have ends : part.isOperand → EndsWord (text ++ rest) := fun ho => hm.endsWord (hs ho) hr
      rw [List.append_assoc, List.append_assoc, stripComment_blanks hg,
        stripComment_spelled hpart hw ends, ih hmore]
      simp

/-- Of a remark only blanks are left. -/
theorem stripComment_remark (h : IsRemark rest) : AllBlank (stripComment none rest) := by
  cases h with
  | @blanks gap hg =>
      have := stripComment_blanks hg []
      rw [List.append_nil] at this
      simpa [this, stripComment] using hg
  | @comment gap x words hg hx =>
      obtain ⟨hq, -, -, hs, -⟩ := plain_of_isBlank hx
      rw [stripComment_blanks hg, stripComment_cons hq hs]
      have comment : stripComment none ('/' :: '/' :: words) = [] := by
        simp [stripComment, Part.isQuote]
      rw [comment]
      exact List.forall_mem_append.2 ⟨hg, by simpa using hx⟩

end RuleTable

/-! ## Parts -/

namespace Part

variable {word rest : List Char}

theorem splitFrom_word {latest : List Char}
    (h : ∀ c ∈ word, Text.isBlank c = false ∧ isQuote c = false ∧ c ≠ '|' ∧ c ≠ '+')
    (rest : List Char) : splitFrom none latest (word ++ rest) =
      splitFrom none (word.reverse ++ latest) rest := by
  induction word generalizing latest with
  | nil => rfl
  | cons c word ih =>
      obtain ⟨⟨hb, hq, hor, hmore⟩, hword⟩ := List.forall_mem_cons.1 h
      simp [splitFrom, hq, hor, hmore, hb, ih hword]

theorem splitFrom_quoted {quote : Char} {text latest : List Char} (h : quote ∉ text)
    (rest : List Char) : splitFrom (some quote) latest (text ++ quote :: rest) =
      splitFrom none (quote :: (text.reverse ++ latest)) rest := by
  induction text generalizing latest with
  | nil => simp [splitFrom]
  | cons c text ih =>
      obtain ⟨hc, htext⟩ : c ≠ quote ∧ quote ∉ text := by
        simpa [eq_comm] using h
      simp [splitFrom, hc, ih htext]

/-- Where a word ends, it is a part. -/
theorem splitFrom_of_endsWord (h : EndsWord rest) (latest : List Char) :
    splitFrom none latest rest = ofReversed latest ++ splitFrom none [] rest := by
  cases rest with
  | nil => simp [splitFrom, ofReversed]
  | cons c rest =>
      rcases h c rfl with hc | rfl | rfl
      · obtain ⟨hq, hor, hmore, -⟩ := plain_of_isBlank hc
        simp [splitFrom, hq, hor, hmore, hc, ofReversed]
      · simp [splitFrom, isQuote, ofReversed]
      · simp [splitFrom, isQuote, ofReversed]

theorem splitFrom_blanks {gap : List Char} (h : AllBlank gap) (rest : List Char) :
    splitFrom none [] (gap ++ rest) = splitFrom none [] rest := by
  induction gap with
  | nil => rfl
  | cons x gap ih =>
      obtain ⟨hx, hgap⟩ := List.forall_mem_cons.1 h
      obtain ⟨hq, hor, hmore, -⟩ := plain_of_isBlank hx
      simp [splitFrom, hq, hor, hmore, hx, ofReversed, ih hgap]

theorem ofWord_symbol (h : ∀ c ∈ word.head?, isQuote c = false) :
    ofWord word = .symbol (String.ofList word) := by
  unfold ofWord
  split
  · rename_i quote last more
    simp [h quote rfl]
  · rfl

theorem ofWord_literal {quote : Char} (hq : isQuote quote) (text : List Char) :
    ofWord (quote :: (text ++ [quote])) = .literal (String.ofList text) := by
  obtain ⟨last, more, he⟩ := List.exists_cons_of_ne_nil (List.append_ne_nil_of_right_ne_nil text
    (List.cons_ne_nil quote []))
  have closed : (last :: more).getLast? = some quote := by rw [← he, List.getLast?_concat]
  rw [he, ofWord, if_pos ⟨hq, closed⟩, ← he, List.dropLast_concat]

theorem splitFrom_spelled {part : Part} (hw : part.IsWritable) (hs : part.Spells word)
    (hr : part.isOperand → EndsWord rest) :
    splitFrom none [] (word ++ rest) = part :: splitFrom none [] rest := by
  cases hs with
  | symbol name =>
      obtain ⟨hne, -, hplain⟩ := hw
      have symbol : ofWord name.toList = .symbol name := by
        rw [ofWord_symbol fun c hc => (hplain c (List.mem_of_mem_head? hc)).2.1,
          String.ofList_toList]
      rw [splitFrom_word hplain, List.append_nil, splitFrom_of_endsWord (hr rfl)]
      simp [ofReversed, hne, symbol]
  | @literal quote text hq ht =>
      have opened : splitFrom none [] (quote :: (text.toList ++ [quote]) ++ rest) =
          splitFrom (some quote) [quote] (text.toList ++ quote :: rest) := by
        simp [splitFrom, hq]
      have literal : ofWord (quote :: (text.toList ++ [quote])) = .literal text := by
        rw [ofWord_literal hq, String.ofList_toList]
      rw [opened, splitFrom_quoted ht, splitFrom_of_endsWord (hr rfl)]
      simp [ofReversed, literal]
  | or => simp [splitFrom, isQuote, ofReversed]
  | oneOrMore => simp [splitFrom, isQuote, ofReversed]

theorem split_written {parts : Alternative} {body : List Char} (h : parts.IsWritten body)
    (hp : ∀ part ∈ parts, part.IsWritable) : split body = parts := by
  induction h with
  | nil => rfl
  | @cons part more gap word text hg hw hm hs ih =>
      obtain ⟨hpart, hmore⟩ := List.forall_mem_cons.1 hp
      have ends : part.isOperand → EndsWord text := by
        intro ho
        have := hm.endsWord (hs ho) .nil
        rwa [List.append_nil] at this
      rw [split, splitFrom_blanks hg, splitFrom_spelled hpart hw ends]
      exact congrArg _ (ih hmore)

end Part

/-! ## Lines -/

namespace RuleTable

variable {name : String} {parts : Alternative} {line : List Char}

/-- No separator begins in the name of a rule or in the blanks after it. -/
theorem IsName.no_separator_append (h : IsName name) {gap : List Char} (hg : AllBlank gap) :
    ¬[':', ':', '='] <:+: name.toList ++ gap := by
  have unlike : ∀ c ∈ gap, c ≠ ':' ∧ c ≠ '=' := by
    intro c hc
    obtain ⟨-, -, -, -, hcolon, hequal⟩ := plain_of_isBlank (hg c hc)
    exact ⟨hcolon, hequal⟩
  intro hs
  rcases List.infix_append_iff.1 hs with hs | hs | ⟨l, l', he, hl, hl'⟩
  · exact h.no_separator hs
  · exact (unlike ':' (hs.subset (by simp))).1 rfl
  · -- what is in the gap can only be nothing, as the separator would end in it
    match hm : l'.getLast? with
    | none =>
        obtain rfl := List.getLast?_eq_none_iff.1 hm
        rw [List.append_nil] at he
        exact h.no_separator (he ▸ hl.isInfix)
    | some c =>
        have last := congrArg List.getLast? he
        rw [List.getLast?_append, hm] at last
        obtain rfl : '=' = c := by simpa using last
        exact (unlike _ (hl'.subset (List.mem_of_getLast? hm))).2 rfl

/-- A line is cut at the separator after the name. -/
theorem IsName.splitOnce? (h : IsName name) {gap : List Char} (hg : AllBlank gap)
    (body : List Char) : Text.splitOnce? [':', ':', '=']
      (name.toList ++ gap ++ ([':', ':', '='] ++ body)) = some (name.toList ++ gap, body) := by
  refine Text.splitOnce?_append (by simp) fun rest hr hne hp => ?_
  match rest with
  | [] => exact hne rfl
  | [c] => simp at hp
  | [c, d] => simp at hp
  | c :: d :: e :: rest =>
      have here : [':', ':', '='] <+: c :: d :: e :: rest := by simpa using hp
      exact h.no_separator_append hg (here.isInfix.trans hr.isInfix)

theorem IsName.isTrimmed (h : IsName name) : Text.IsTrimmed name.toList :=
  ⟨fun c hc => (h.plain c (List.mem_of_mem_head? hc)).1,
    fun c hc => (h.plain c (List.mem_of_getLast? hc)).1⟩

/-- What is read of a line. -/
def content (line : List Char) : List Char :=
  Text.trimChars (stripComment none line)

theorem content_idleLine (h : IsIdleLine line) : content line = [] := by
  cases h with
  | blank hg => exact (stripComment_remark (.blanks hg)).trimChars
  | @comment gap words hg =>
      have comment : stripComment none ('/' :: '/' :: words) = [] := by
        simp [stripComment, Part.isQuote]
      rw [content, stripComment_blanks hg, comment, List.append_nil, hg.trimChars]

section RuleLine

variable {start gap body remark : List Char} (hn : IsName name) (hgap : AllBlank gap)
  (hbody : parts.IsWritten body) (hp : ∀ part ∈ parts, part.IsWritable)
include hn hgap hbody hp

theorem stripComment_ruleLine (hstart : AllBlank start) (hremark : IsRemark remark) :
    stripComment none
      (start ++ (name.toList ++ (gap ++ ([':', ':', '='] ++ (body ++ remark))))) =
      start ++ ((name.toList ++ gap ++ ([':', ':', '='] ++ body)) ++
        stripComment none remark) := by
  have after : (gap ++ ([':', ':', '='] ++ (body ++ remark))).head? ≠ some '/' := by
    cases gap with
    | nil => simp
    | cons x gap =>
        obtain ⟨-, -, -, hs, -⟩ := plain_of_isBlank (hgap x List.mem_cons_self)
        simpa using hs
  have separator (rest : List Char) : stripComment none ([':', ':', '='] ++ rest) =
      [':', ':', '='] ++ stripComment none rest := by
    simp [stripComment_cons, Part.isQuote]
  rw [stripComment_blanks hstart, stripComment_word (fun c hc => (hn.plain c hc).2) hn.no_comment
    after, stripComment_blanks hgap, separator, stripComment_written hbody hp hremark.endsWord]
  simp

omit hgap in
theorem isTrimmed_rule : Text.IsTrimmed (name.toList ++ gap ++ ([':', ':', '='] ++ body)) := by
  obtain ⟨x, more, hx⟩ := List.exists_cons_of_ne_nil (mt String.toList_eq_nil_iff.1 hn.ne_empty)
  refine ⟨fun c hc => hn.isTrimmed.first c ?_, fun c hc => ?_⟩
  · simpa [hx] using hc
  · rw [List.getLast?_append, List.getLast?_append] at hc
    cases hb : body.getLast? with
    | some last => exact hbody.last hp c (by simpa [hb] using hc)
    | none =>
        obtain rfl : '=' = c := by simpa [hb] using hc
        decide

theorem ruleOfLine_rule (number : Nat) :
    ruleOfLine number (name.toList ++ gap ++ ([':', ':', '='] ++ body)) = .ok (name, parts) := by
  have named : Text.trimChars (name.toList ++ gap) = name.toList :=
    Text.trimChars_append .nil hn.isTrimmed hgap
  have hne : name.toList.isEmpty = false := by simpa using hn.ne_empty
  simp only [ruleOfLine, hn.splitOnce? hgap, named, hne, Part.split_written hbody hp,
    String.ofList_toList]
  rfl

end RuleLine

/-- Of a line of a rule the comment and the blanks around the rule go. -/
theorem content_ruleLine (hn : IsName name) (hp : ∀ part ∈ parts, part.IsWritable)
    (h : IsRuleLine name parts line) : content line ≠ [] ∧
      ∀ number, ruleOfLine number (content line) = .ok (name, parts) := by
  obtain @⟨start, gap, body, remark, hstart, hgap, hbody, hremark⟩ := h
  have read : content (start ++ (name.toList ++ (gap ++ ([':', ':', '='] ++ (body ++ remark))))) =
      name.toList ++ gap ++ ([':', ':', '='] ++ body) := by
    rw [content, stripComment_ruleLine hn hgap hbody hp hstart hremark,
      Text.trimChars_append hstart (isTrimmed_rule hn hbody hp) (stripComment_remark hremark)]
  rw [read]
  exact ⟨by simp, ruleOfLine_rule hn hgap hbody hp⟩

/-- Of a carriage return at the end of a line only a blank can be left. -/
theorem stripComment_concat_return (quote : Option Char) (line : List Char) :
    stripComment quote (line ++ ['\r']) = stripComment quote line ∨
      stripComment quote (line ++ ['\r']) = stripComment quote line ++ ['\r'] := by
  induction line generalizing quote with
  | nil => cases quote <;> simp [stripComment, Part.isQuote]
  | cons c line ih =>
      cases quote with
      | some q =>
          simp only [List.cons_append, stripComment, List.cons.injEq, true_and]
          exact ih _
      | none =>
          have next : (line ++ ['\r']).head? = some '/' ↔ line.head? = some '/' := by
            cases line <;> simp
          simp only [List.cons_append, stripComment, next]
          split
          · simpa using ih (some c)
          · split
            · exact .inl rfl
            · simpa using ih none

theorem content_concat_return (line : List Char) : content (line ++ ['\r']) = content line := by
  rcases stripComment_concat_return none line with h | h
  · rw [content, h, content]
  · rw [content, h, Text.trimChars_concat (by decide), content]

end RuleTable

end NodeScript
