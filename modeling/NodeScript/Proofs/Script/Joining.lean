import NodeScript.Proofs.Grammar.Relocation
import NodeScript.Proofs.Script.Rewriting
import NodeScript.Proofs.Token.Joining

/-!
# Joining scripts

A script that begins with a block can be put on the lines after another script, and the nodes of
both follow one another. The one exception is a script that ends in the command `version` without a
word: it takes the class of the block as its word, and what is left begins with a brace.
-/

namespace NodeScript

namespace Script

/-- The tokens end in the command `version` without a word after its number. -/
def EndsInVersion (ts : List Token) : Prop :=
  ∃ v f, [v, f] <:+ ts ∧ v.text = "version" ∧ isFloat f

/-- The tokens begin as a block does. -/
def BeginsBlock (ts : List Token) : Prop :=
  ∃ c o rest, ts = c :: o :: rest ∧ isWord c ∧ o.text = "\x7b"

/-! ## Commands that go on -/

/-- The stack commands, written out. -/
theorem IsCommand.cases {ts : List Token} (h : IsCommand ts) :
    (∃ a b c d e f, ts = [a, b, c, d, e, f] ∧ a.text = "set" ∧ isInt e ∧ f.text = "]") ∨
    (∃ a b c, ts = [a, b, c] ∧ a.text = "push" ∧ b.text = "$" ∧ isWord c) ∨
    (∃ a b, ts = [a, b] ∧ a.text = "push" ∧ isInt b) ∨
    (∃ a b c, ts = [a, b, c] ∧ a.text = "version" ∧ isFloat b ∧ isWord c) ∨
    ∃ a b, ts = [a, b] ∧ a.text = "version" ∧ isFloat b := by
  obtain ⟨form, hform, hf⟩ := h
  simp only [commandForms, List.mem_cons, List.not_mem_nil, or_false] at hform
  rcases hform with rfl | rfl | rfl | rfl | rfl
  · obtain _ | ⟨ha, _ | ⟨_, _ | ⟨_, _ | ⟨_, _ | ⟨he, _ | ⟨hf, ⟨⟩⟩⟩⟩⟩⟩⟩ := hf
    exact .inl ⟨_, _, _, _, _, _, rfl, eq_of_beq ha, he, eq_of_beq hf⟩
  · obtain _ | ⟨ha, _ | ⟨hb, _ | ⟨hc, ⟨⟩⟩⟩⟩ := hf
    exact .inr (.inl ⟨_, _, _, rfl, eq_of_beq ha, eq_of_beq hb, hc⟩)
  · obtain _ | ⟨ha, _ | ⟨hb, ⟨⟩⟩⟩ := hf
    exact .inr (.inr (.inl ⟨_, _, rfl, eq_of_beq ha, hb⟩))
  · obtain _ | ⟨ha, _ | ⟨hb, _ | ⟨hc, ⟨⟩⟩⟩⟩ := hf
    exact .inr (.inr (.inr (.inl ⟨_, _, _, rfl, eq_of_beq ha, hb, hc⟩)))
  · obtain _ | ⟨ha, _ | ⟨hb, ⟨⟩⟩⟩ := hf
    exact .inr (.inr (.inr (.inr ⟨_, _, rfl, eq_of_beq ha, hb⟩)))

theorem not_isFloat_version {t : Token} (h : t.text = "version") : isFloat t = false := by
  have hv : (TokenTable.script.row? "FLOAT").any (·.accepts "version") = false := by decide +kernel
  rw [isFloat, TokenTable.admits, h, hv]

/-- A stack command goes on in another only from `version` and a number to the word after them. -/
theorem command_extends {ts more : List Token} {x : Token} (h : IsCommand ts)
    (h' : IsCommand (ts ++ x :: more)) :
    more = [] ∧ isWord x ∧ ∃ v f, ts = [v, f] ∧ v.text = "version" ∧ isFloat f := by
  have hlen := two_le_length_of_isCommand h
  have hdollar (t : Token) (h : t.text = "$") : isInt t = false := isInt_mark (by simp [h, marks])
  -- the longer command has three tokens or six, and the shorter one fits its beginning
  rcases h'.cases with ⟨a, b, c, d, e, f, he, ha, -⟩ | ⟨a, b, c, he, ha, hb, -⟩ | ⟨a, b, he, -⟩ |
    ⟨a, b, c, he, ha, hb, hc⟩ | ⟨a, b, he, -⟩
  · have := congrArg List.length he
    rcases h.cases with ⟨_, _, _, _, _, _, rfl, -⟩ | ⟨_, _, _, rfl, ha', -⟩ | ⟨_, _, rfl, ha', -⟩ |
      ⟨_, _, _, rfl, ha', -⟩ | ⟨_, _, rfl, ha', -⟩ <;> simp_all
  · rcases h.cases with ⟨_, _, _, _, _, _, rfl, -⟩ | ⟨_, _, _, rfl, -⟩ | ⟨_, _, rfl, -, hb'⟩ |
      ⟨_, _, _, rfl, ha', -⟩ | ⟨_, _, rfl, ha', -⟩ <;> simp_all
  · have := congrArg List.length he
    simp only [List.length_append, List.length_cons, List.length_nil] at this
    omega
  · rcases h.cases with ⟨_, _, _, _, _, _, rfl, -⟩ | ⟨_, _, _, rfl, -⟩ | ⟨_, _, rfl, ha', -⟩ |
      ⟨_, _, _, rfl, -⟩ | ⟨_, _, rfl, -⟩ <;> simp_all
  · have := congrArg List.length he
    simp only [List.length_append, List.length_cons, List.length_nil] at this
    omega

theorem EndsInVersion.append {ts : List Token} (h : EndsInVersion ts) (before : List Token) :
    EndsInVersion (before ++ ts) := by
  obtain ⟨v, f, hs, hv⟩ := h
  exact ⟨v, f, hs.trans (List.suffix_append before ts), hv⟩

theorem EndsInVersion.of_append {before ts : List Token} (h : EndsInVersion (before ++ ts))
    (hl : 2 ≤ ts.length) : EndsInVersion ts := by
  obtain ⟨v, f, hs, hv⟩ := h
  exact ⟨v, f, List.suffix_of_suffix_length_le hs (List.suffix_append before ts) hl, hv⟩

theorem command_of_endsInVersion {ts : List Token} (h : IsCommand ts) (hv : EndsInVersion ts) :
    ∃ v f, ts = [v, f] ∧ v.text = "version" ∧ isFloat f := by
  obtain ⟨v, f, hs, hv, hf⟩ := hv
  rw [List.suffix_iff_eq_drop] at hs
  rcases h.cases with ⟨_, _, _, _, _, last, rfl, -, -, hl⟩ | ⟨_, _, _, rfl, -, hb, -⟩ |
    ⟨_, _, rfl, ha, -⟩ | ⟨_, _, _, rfl, -, hb, -⟩ | ⟨a, b, rfl, ha, hb⟩
  · have hmark : isFloat last = false := isFloat_mark (by simp [hl, marks])
    simp_all
  · simp_all
  · simp_all
  · have := not_isFloat_version hv
    simp_all
  · exact ⟨a, b, rfl, ha, hb⟩

/-! ## Statements before a block -/

variable {more : List Token}

theorem noCommand_append {ss : List Statement} (h : NoCommand (tokensOf ss)) (hw : WellFormed ss)
    (hb : BeginsBlock more) : NoCommand (tokensOf ss ++ more) := by
  match ss with
  | [] =>
      obtain ⟨c, o, rest, rfl, -, ho⟩ := hb
      exact noCommand_of_brace ho rest
  | .block bl :: ss => exact noCommand_of_brace hw.1.opening _
  | .command ts :: ss => exact absurd (List.prefix_append ts (tokensOf ss)) (h ts hw.1.command)

/-- A whole stack command stays whole when more tokens follow, unless it is `version` and a number
at the very end. -/
theorem isWholeCommand_append {ts rest : List Token} (h : IsWholeCommand ts rest)
    (hv : rest = [] → ¬EndsInVersion ts) (more : List Token) :
    IsWholeCommand ts (rest ++ more) := by
  refine ⟨h.command, fun ts' hc hp => ?_⟩
  rcases List.prefix_or_prefix_of_prefix hp (List.prefix_append ts (rest ++ more)) with
    hle | ⟨after, rfl⟩
  · exact hle
  · match after, rest with
    | [], _ => simp
    | x :: after, [] =>
        obtain ⟨-, -, v, f, rfl, hver⟩ := command_extends h.command hc
        exact absurd ⟨v, f, List.suffix_refl _, hver⟩ (hv rfl)
    | x :: after, y :: rest =>
        obtain ⟨rfl, -, -⟩ := command_extends h.command hc
        obtain rfl : x = y := by simpa using hp
        exact h.longest _ hc (by simp)

theorem wellFormed_statement_append {s : Statement} {ss : List Statement}
    (h : s.WellFormed (tokensOf ss)) (hss : WellFormed ss) (hb : BeginsBlock more)
    (hv : ss = [] → ¬EndsInVersion s.tokens) : s.WellFormed (tokensOf ss ++ more) := by
  have empty (h : tokensOf ss = []) : ss = [] := wellFormed_tokens_eq_nil hss h
  match s with
  | .command ts => exact isWholeCommand_append h (fun he => hv (empty he)) more
  | .block bl =>
      have h : bl.WellFormed (tokensOf ss) := h
      refine ⟨h.className, h.opening, h.knobs, h.closing, fun ts hts => ?_, fun hn => ?_⟩
      · refine isWholeCommand_append (h.command ts hts) (fun he hends => hv (empty he) ?_) more
        have htokens : (Statement.block bl).tokens =
            bl.className :: bl.opening :: bl.knobs.flatMap KnobText.tokens ++ [bl.closing] ++
              ts := by
          simp [Statement.tokens, BlockText.tokens, Option.mem_def.1 hts]
        rw [htokens]
        exact hends.append _
      · exact noCommand_append (h.alone hn) hss hb

theorem tokensOf_append (ss ss' : List Statement) :
    tokensOf (ss ++ ss') = tokensOf ss ++ tokensOf ss' :=
  List.flatMap_append

/-- Statements can be followed by others that begin with a block. -/
theorem wellFormed_append {ss ss' : List Statement} (h : WellFormed ss) (h' : WellFormed ss')
    (hb : BeginsBlock (tokensOf ss')) (hv : ¬EndsInVersion (tokensOf ss)) :
    WellFormed (ss ++ ss') := by
  induction ss with
  | nil => exact h'
  | cons s ss ih =>
      obtain ⟨hs, hss⟩ := h
      refine ⟨?_, ih hss fun he => hv (he.append s.tokens)⟩
      change s.WellFormed (tokensOf (ss ++ ss'))
      rw [tokensOf_append]
      refine wellFormed_statement_append hs hss hb ?_
      rintro rfl hends
      exact hv (by simpa [tokensOf] using hends)

/-! ## A command that takes a class -/

/-- Tokens go on in one way only after a statement. -/
theorem statement_unique {s s' : Statement} {rest rest' : List Token} (h : s.WellFormed rest)
    (h' : s'.WellFormed rest') (he : s.tokens ++ rest = s'.tokens ++ rest') : rest = rest' := by
  generalize hts : s.tokens ++ rest = ts at he
  have hl : ts.length ≤ ts.length := Nat.le_refl _
  obtain ⟨t, ht, -⟩ := (reads_statement ts.length 0).complete s rest (hts ▸ hl) h
  obtain ⟨t', ht', -⟩ := (reads_statement ts.length 0).complete s' rest' (he ▸ hl) h'
  rw [hts] at ht
  rw [← he] at ht'
  exact (Prod.mk.inj (Option.some.inj (ht.symm.trans ht'))).2

theorem first_of_wellFormed {s : Statement} {rest : List Token} (h : s.WellFormed rest) :
    ∃ t ts, s.tokens = t :: ts ∧ t.text ≠ "\x7b" := by
  match s with
  | .block bl =>
      refine ⟨_, _, rfl, fun ht => ?_⟩
      have hw := h.className
      rw [isWord_mark (by simp [ht, marks])] at hw
      cases hw
  | .command ts =>
      rcases h.command.cases with ⟨_, _, _, _, _, _, rfl, ha, -⟩ | ⟨_, _, _, rfl, ha, -⟩ |
        ⟨_, _, rfl, ha, -⟩ | ⟨_, _, _, rfl, ha, -⟩ | ⟨_, _, rfl, ha, -⟩ <;>
        exact ⟨_, _, rfl, by simp [ha]⟩

theorem two_le_length_of_wellFormed {s : Statement} {rest : List Token} (h : s.WellFormed rest) :
    2 ≤ s.tokens.length := by
  match s with
  | .block bl => simp [Statement.tokens, BlockText.tokens]
  | .command ts => exact two_le_length_of_isCommand h.command

/-- The command `version` with its word is whole, whatever follows. -/
theorem isWholeCommand_version {v f w : Token} (hv : v.text = "version") (hf : isFloat f)
    (hw : isWord w) (rest : List Token) : IsWholeCommand [v, f, w] rest := by
  have hc : IsCommand [v, f, w] :=
    ⟨[isText "version", isFloat, isWord], by simp [commandForms],
      .cons (by simpa [isText] using hv) (.cons hf (.cons hw .nil))⟩
  refine ⟨hc, fun ts hts hp => ?_⟩
  rcases List.prefix_or_prefix_of_prefix hp (List.prefix_append [v, f, w] rest) with
    hle | ⟨after, rfl⟩
  · exact hle
  · cases after with
    | nil => simp
    | cons x after =>
        obtain ⟨-, -, _, _, he, -⟩ := command_extends hc hts
        simp at he

/-- A last statement that ends in `version` and a number takes a word after it. -/
theorem exists_extended {s : Statement} {c : Token} (h : s.WellFormed [])
    (hv : EndsInVersion s.tokens) (hc : isWord c) :
    ∃ s' : Statement, s'.tokens = s.tokens ++ [c] ∧ ∀ rest, s'.WellFormed rest := by
  match s with
  | .command ts =>
      obtain ⟨v, f, rfl, hver, hf⟩ := command_of_endsInVersion h.command hv
      exact ⟨.command [v, f, c], rfl, isWholeCommand_version hver hf hc⟩
  | .block bl =>
      have h : bl.WellFormed [] := h
      obtain ⟨className, opening, knobs, closing, command⟩ := bl
      cases command with
      | none =>
          obtain ⟨v, f, hs, -, hf⟩ := hv
          have hlast : [f] <:+ [closing] :=
            List.suffix_of_suffix_length_le ((List.suffix_cons v [f]).trans hs)
              ⟨className :: opening :: knobs.flatMap KnobText.tokens, by
                simp [Statement.tokens, BlockText.tokens]⟩ (Nat.le_refl 1)
          obtain ⟨rfl⟩ := hlast.eq_of_length rfl
          rw [isFloat_mark (by simp [show closing.text = "\x7d" from h.closing, marks])] at hf
          cases hf
      | some ts =>
          have hcommand := (h.command ts rfl).command
          have hends : EndsInVersion
              ((className :: opening :: knobs.flatMap KnobText.tokens ++ [closing]) ++ ts) := by
            simpa [Statement.tokens, BlockText.tokens] using hv
          obtain ⟨v, f, rfl, hver, hf⟩ := command_of_endsInVersion hcommand
            (hends.of_append (two_le_length_of_isCommand hcommand))
          refine ⟨.block ⟨className, opening, knobs, closing, some [v, f, c]⟩, ?_, fun rest => ?_⟩
          · simp [Statement.tokens, BlockText.tokens]
          · refine ⟨h.className, h.opening, h.knobs, h.closing, fun ts hts => ?_,
              fun hn => absurd hn (Option.some_ne_none _)⟩
            obtain rfl := Option.some.inj (Option.mem_def.1 hts)
            exact isWholeCommand_version hver hf hc rest

/-- After `version` and a number, the class of a block is the word of the command, and nothing
begins at the brace after it. -/
theorem not_wellFormed_joined {ss ss' : List Statement} (h : WellFormed ss) (hb : BeginsBlock more)
    (hv : EndsInVersion (tokensOf ss)) (h' : WellFormed ss') :
    tokensOf ss' ≠ tokensOf ss ++ more := by
  obtain ⟨c, o, rest, rfl, hc, ho⟩ := hb
  induction ss generalizing ss' with
  | nil =>
      obtain ⟨_, _, hs, -⟩ := hv
      simpa [tokensOf] using hs.length_le
  | cons s ss ih =>
      intro he
      obtain ⟨hs, hss⟩ := h
      cases ss' with
      | nil =>
          have hne := statement_tokens_ne_nil hs
          simp [tokensOf, hne] at he
      | cons s' ss' =>
          obtain ⟨hs', hss'⟩ := h'
          have he : s'.tokens ++ tokensOf ss' = s.tokens ++ (tokensOf ss ++ c :: o :: rest) := by
            simpa [tokensOf] using he
          cases ss with
          | nil =>
              -- the statement takes the class of the block
              obtain ⟨sx, hsx, hwx⟩ := exists_extended hs (by simpa [tokensOf] using hv) hc
              have hrest : tokensOf ss' = o :: rest :=
                statement_unique hs' (hwx (o :: rest)) (by simpa [hsx, tokensOf] using he)
              cases ss' with
              | nil => cases hrest
              | cons s'' ss'' =>
                  obtain ⟨t, ts, ht, hbrace⟩ := first_of_wellFormed hss'.1
                  obtain ⟨rfl, -⟩ : t = o ∧ _ := by simpa [tokensOf, ht] using hrest
                  exact hbrace ho
          | cons s₂ ss =>
              -- the first statement stays as it is, and the rest still ends in the number
              have hw : s.WellFormed (tokensOf (s₂ :: ss) ++ c :: o :: rest) :=
                wellFormed_statement_append hs hss ⟨c, o, rest, rfl, hc, ho⟩
                  fun hn => absurd hn (List.cons_ne_nil _ _)
              have hlen : 2 ≤ (tokensOf (s₂ :: ss)).length :=
                Nat.le_trans (two_le_length_of_wellFormed hss.1) (by simp [tokensOf])
              have hv : EndsInVersion (s.tokens ++ tokensOf (s₂ :: ss)) := hv
              exact ih hss (hv.of_append hlen) hss' (statement_unique hs' hw he)

theorem blocksOf_append (ss ss' : List Statement) :
    blocksOf (ss ++ ss') = blocksOf ss ++ blocksOf ss' :=
  List.filterMap_append

end Script

/-! ## Texts -/

namespace ScriptParser

open Script

variable {p : ScriptParser}

/-- The text is a script whose first statement is a block. -/
def OpensWithBlock (p : ScriptParser) (text : String) : Prop :=
  ∃ bl ss, p.tokenize text = .ok (tokensOf (.block bl :: ss)) ∧ WellFormed (.block bl :: ss)

/-- The last tokens of the text are the word `version` and a float. -/
def EndsInVersion (p : ScriptParser) (text : String) : Prop :=
  ∃ ts, p.tokenize text = .ok ts ∧ Script.EndsInVersion ts

theorem beginsBlock_of_opensWithBlock {text : String} {ts : List Token} (h : p.OpensWithBlock text)
    (ht : p.tokenize text = .ok ts) : BeginsBlock ts := by
  obtain ⟨bl, ss, ht', hw⟩ := h
  rw [Except.ok.inj (ht.symm.trans ht')]
  exact ⟨bl.className, bl.opening, _, rfl, hw.1.className, hw.1.opening⟩

/-- Texts on lines of their own have the tokens of each. -/
theorem IsScript.parse_joined_iff (h : p.IsScript) {first second : String}
    {ts₁ ts₂ : List Token} (h₁ : p.tokenize first = .ok ts₁) (h₂ : p.tokenize second = .ok ts₂)
    (nodes : List Node) : p.parse (first ++ "\n" ++ second) = .ok nodes ↔
      ∃ t, p.resolveTokens (ts₁ ++ ts₂).toArray = .ok t ∧ t.nodes = nodes := by
  rw [tokenize, h.tokens] at h₁ h₂
  have hk : TokenTable.script.kinds? (first ++ "\n" ++ second).toList =
      some ((ts₁ ++ ts₂).map Token.kind) := by
    rw [String.toList_append, String.toList_append, List.append_assoc, List.map_append]
    change TokenTable.script.kinds? (first.toList ++ '\n' :: second.toList) = _
    rw [TokenTable.kinds?_lineFeed (TokenTable.kinds?_eq_some_iff.2 ⟨ts₁, h₁, rfl⟩),
      TokenTable.kinds?_eq_some_iff.2 ⟨ts₂, h₂, rfl⟩]
    rfl
  obtain ⟨ts, hts, hkinds⟩ := TokenTable.kinds?_eq_some_iff.1 hk
  have hb : p.builders.IgnoresPlaces := h.builders ▸ BuilderTable.ignoresPlaces_standard
  rw [ScriptParser.parse_eq_ok_iff, tokenize, h.tokens, hts, ← nodes_of_kinds hb hkinds]
  simp

/-- A script begins with a block when a brace follows its first token. -/
theorem IsScript.opensWithBlock_iff (h : p.IsScript) {text : String} {nodes : List Node}
    (hn : p.parse text = .ok nodes) : p.OpensWithBlock text ↔
      ∃ c o rest, p.tokenize text = .ok (c :: o :: rest) ∧ o.text = "\x7b" := by
  constructor
  · rintro ⟨bl, ss, ht, hw⟩
    exact ⟨_, _, _, ht, hw.1.opening⟩
  · rintro ⟨c, o, rest, ht, ho⟩
    obtain ⟨ss, hss, hw, -⟩ := (h.parse_eq_ok_iff _ _).1 hn
    have htokens : tokensOf ss = c :: o :: rest := Except.ok.inj (hss.symm.trans ht)
    match ss with
    | [] => cases htokens
    | .block bl :: ss => exact ⟨bl, ss, hss, hw⟩
    | .command ts :: ss =>
        obtain ⟨first, second, more, rfl, hsecond⟩ := second_of_isCommand hw.1.command
        obtain ⟨-, rfl, -⟩ : first = c ∧ second = o ∧ _ := by
          simpa [tokensOf, Statement.tokens] using htokens
        exact absurd ho hsecond

section

variable {first second : String} {ns₁ ns₂ : List Node}

/-- A script and one that begins with a block, on lines of their own, are read one after the
other. -/
theorem IsScript.parse_joined (h : p.IsScript) (h₁ : p.parse first = .ok ns₁)
    (h₂ : p.parse second = .ok ns₂) (hb : p.OpensWithBlock second) (hv : ¬p.EndsInVersion first) :
    p.parse (first ++ "\n" ++ second) = .ok (ns₁ ++ ns₂) := by
  obtain ⟨ss₁, ht₁, hw₁, hd₁⟩ := (h.parse_eq_ok_iff _ _).1 h₁
  obtain ⟨ss₂, ht₂, hw₂, hd₂⟩ := (h.parse_eq_ok_iff _ _).1 h₂
  have hv : ¬Script.EndsInVersion (tokensOf ss₁) := fun hends => hv ⟨_, ht₁, hends⟩
  have hw := wellFormed_append hw₁ hw₂ (beginsBlock_of_opensWithBlock hb ht₂) hv
  rw [h.parse_joined_iff ht₁ ht₂, h.nodes_eq_ok_iff]
  refine ⟨ss₁ ++ ss₂, (tokensOf_append ss₁ ss₂).symm, hw, ?_⟩
  rw [blocksOf_append]
  exact List.rel_append hd₁ hd₂

/-- After `version` and a float the class of the block is read as the word of the command. -/
theorem IsScript.parse_joined_ne_ok (h : p.IsScript) (h₁ : p.parse first = .ok ns₁)
    (h₂ : p.parse second = .ok ns₂) (hb : p.OpensWithBlock second) (hv : p.EndsInVersion first)
    (ns : List Node) : p.parse (first ++ "\n" ++ second) ≠ .ok ns := by
  obtain ⟨ss₁, ht₁, hw₁, -⟩ := (h.parse_eq_ok_iff _ _).1 h₁
  obtain ⟨ss₂, ht₂, -, -⟩ := (h.parse_eq_ok_iff _ _).1 h₂
  obtain ⟨ts, ht, hends⟩ := hv
  obtain rfl := Except.ok.inj (ht₁.symm.trans ht)
  rw [ne_eq, h.parse_joined_iff ht₁ ht₂, h.nodes_eq_ok_iff]
  rintro ⟨ss, hss, hw, -⟩
  exact not_wellFormed_joined hw₁ (beginsBlock_of_opensWithBlock hb ht₂) hends hw hss.symm

end

/-- The shipped parser reads a script and one that begins with a block, on lines of their own, as
the nodes of the one and then those of the other, unless the first ends in `version` and a float:
then it does not read them at all. -/
theorem shipped_parse_joined (first second : String) (ns₁ ns₂ : List Node) :
    ∃ p, shipped = .ok p ∧
      (p.parse first = .ok ns₁ → p.parse second = .ok ns₂ → p.OpensWithBlock second →
        (¬p.EndsInVersion first → p.parse (first ++ "\n" ++ second) = .ok (ns₁ ++ ns₂)) ∧
        (p.EndsInVersion first → ∀ ns, p.parse (first ++ "\n" ++ second) ≠ .ok ns)) := by
  obtain ⟨p, hp, hs⟩ := shipped_isScript
  exact ⟨p, hp, fun h₁ h₂ hb => ⟨hs.parse_joined h₁ h₂ hb, hs.parse_joined_ne_ok h₁ h₂ hb⟩⟩

theorem IsScript.tokenize_of_kinds? (h : p.IsScript) {text : String} {ks : List (String × String)}
    (hk : TokenTable.script.kinds? text.toList = some ks) :
    ∃ ts, p.tokenize text = .ok ts ∧ ts.map Token.kind = ks := by
  rw [tokenize, h.tokens]
  exact TokenTable.kinds?_eq_some_iff.1 hk

theorem IsScript.parse_dot (h : p.IsScript) : p.parse "Dot \x7b \x7d" = .ok [⟨"Dot", [], none⟩] ∧
    p.OpensWithBlock "Dot \x7b \x7d" := by
  have hparse : p.parse "Dot \x7b \x7d" = .ok [⟨"Dot", [], none⟩] :=
    parse_of_nodesOf? h (by decide +kernel)
  have hk : TokenTable.script.kinds? "Dot \x7b \x7d".toList =
      some [("WORD", "Dot"), ("OPEN_BRACE", "\x7b"), ("CLOSE_BRACE", "\x7d")] := by
    decide +kernel
  obtain ⟨ts, ht, hts⟩ := h.tokenize_of_kinds? hk
  obtain ⟨c, ts, rfl, -, hts⟩ := List.map_eq_cons_iff.1 hts
  obtain ⟨o, ts, rfl, ho, -⟩ := List.map_eq_cons_iff.1 hts
  exact ⟨hparse, (h.opensWithBlock_iff hparse).2 ⟨c, o, ts, ht, congrArg Prod.snd ho⟩⟩

theorem IsScript.parse_version (h : p.IsScript) :
    p.parse "version 1.0" = .ok [] ∧ p.EndsInVersion "version 1.0" := by
  have hk : TokenTable.script.kinds? "version 1.0".toList =
      some [("WORD", "version"), ("FLOAT", "1.0")] := by
    decide +kernel
  obtain ⟨ts, ht, hts⟩ := h.tokenize_of_kinds? hk
  obtain ⟨v, ts, rfl, hv, hts⟩ := List.map_eq_cons_iff.1 hts
  obtain ⟨f, ts, rfl, hf, hts⟩ := List.map_eq_cons_iff.1 hts
  obtain rfl := List.map_eq_nil_iff.1 hts
  have hf : isFloat f := by
    rw [isFloat, TokenTable.admits, show f.text = "1.0" from congrArg Prod.snd hf]
    decide +kernel
  exact ⟨parse_of_nodesOf? h (by decide +kernel), [v, f], ht, v, f, List.suffix_refl _,
    congrArg Prod.snd hv, hf⟩

theorem shipped_parse_joined_dots : ∃ p, shipped = .ok p ∧
    p.parse ("Dot \x7b \x7d push $cut # the end" ++ "\n" ++ "Dot \x7b \x7d") =
      .ok [⟨"Dot", [], some (.recall "cut")⟩, ⟨"Dot", [], none⟩] ∧
    ∀ ns, p.parse ("version 1.0" ++ "\n" ++ "Dot \x7b \x7d") ≠ .ok ns := by
  obtain ⟨p, hp, hs⟩ := shipped_isScript
  obtain ⟨hdot, hopens⟩ := hs.parse_dot
  obtain ⟨hversion, hends⟩ := hs.parse_version
  have hcut : p.parse "Dot \x7b \x7d push $cut # the end" =
      .ok [⟨"Dot", [], some (.recall "cut")⟩] :=
    parse_of_nodesOf? hs (by decide +kernel)
  have hnot : ¬p.EndsInVersion "Dot \x7b \x7d push $cut # the end" := by
    have hk : TokenTable.script.kinds? "Dot \x7b \x7d push $cut # the end".toList =
        some [("WORD", "Dot"), ("OPEN_BRACE", "\x7b"), ("CLOSE_BRACE", "\x7d"),
          ("TCL_PUSH", "push"), ("TCL_VAR", "$"), ("WORD", "cut")] := by
      decide +kernel
    obtain ⟨ts, ht, hts⟩ := hs.tokenize_of_kinds? hk
    rintro ⟨ts', ht', v, f, hsuffix, hv, -⟩
    obtain rfl := Except.ok.inj (ht.symm.trans ht')
    have hlast := List.suffix_iff_eq_drop.1 (hsuffix.map Token.kind)
    obtain ⟨hkind, -⟩ : v.kind = ("TCL_VAR", "$") ∧ _ := by simpa [hts] using hlast
    have hdollar : v.text = "$" := congrArg Prod.snd hkind
    simp [hdollar] at hv
  obtain ⟨p₁, hp₁, joined⟩ := shipped_parse_joined "Dot \x7b \x7d push $cut # the end"
    "Dot \x7b \x7d" [⟨"Dot", [], some (.recall "cut")⟩] [⟨"Dot", [], none⟩]
  obtain rfl := Except.ok.inj (hp.symm.trans hp₁)
  obtain ⟨p₂, hp₂, unjoined⟩ := shipped_parse_joined "version 1.0" "Dot \x7b \x7d" []
    [⟨"Dot", [], none⟩]
  obtain rfl := Except.ok.inj (hp.symm.trans hp₂)
  exact ⟨p, hp, (joined hcut hdot hopens).1 hnot, (unjoined hversion hdot hopens).2 hends⟩

end ScriptParser

end NodeScript
