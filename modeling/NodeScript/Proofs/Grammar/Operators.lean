import NodeScript.Proofs.Grammar.Recursion

/-!
# Operators and their operands

A table is compiled unless an operator in it lacks an operand, in whatever rule that is. Then the
error names a rule with such an operator, which need not be the rule that was being compiled first.
-/

namespace NodeScript

/-! ## Operators that lack an operand -/

/-- The part, between these neighbours, is an operator without an operand. -/
def Part.LacksOperand (before after : Option Part) : Part → Prop
  | .oneOrMore => before = none ∨ before = some .or
  | .or => before = none ∨ before = some .or ∨ after = none ∨ after = some .oneOrMore
  | .symbol _ => False
  | .literal _ => False

/-- The part is an operator, and what comes before it is no operand. -/
def Part.lacksLeft (before : Option Part) : Part → Bool
  | .oneOrMore => before == none || before == some .or
  | .or => before == none || before == some .or
  | .symbol _ => false
  | .literal _ => false

theorem Part.lacksOperand_iff {before after : Option Part} {part : Part} :
    part.LacksOperand before after ↔ part.lacksLeft before ∨
      part = .or ∧ (after = none ∨ after = some .oneOrMore) := by
  cases part <;> simp [LacksOperand, lacksLeft, or_assoc]

namespace Alternative

/-- An operator of the alternative lacks an operand. -/
def Dangles (parts : Alternative) : Prop :=
  ∃ before part after, parts = before ++ part :: after ∧
    part.LacksOperand before.getLast? after.head?

/-- Whether an operator lacks an operand, read from the left after the part `before`. -/
def danglesAfter (before : Option Part) : Alternative → Bool
  | [] => before == some .or
  | part :: rest => part.lacksLeft before || danglesAfter (some part) rest

/-- From the left a `|` shows only at the next part, or at the end, that it lacks its right
operand. -/
theorem danglesAfter_iff (before parts : Alternative) :
    danglesAfter before.getLast? parts ↔ (parts = [] ∧ before.getLast? = some .or) ∨
      ∃ mid part after, parts = mid ++ part :: after ∧
        part.LacksOperand (before ++ mid).getLast? after.head? := by
  induction parts generalizing before with
  | nil => simp [danglesAfter]
  | cons p rest ih =>
      have later := ih (before ++ [p])
      rw [List.getLast?_concat] at later
      simp only [danglesAfter, Bool.or_eq_true, later, List.cons_eq_append_iff, List.append_assoc,
        List.singleton_append, reduceCtorEq, false_and, false_or]
      constructor
      · rintro (hp | ⟨rfl, hp⟩ | ⟨mid, part, after, rfl, hpart⟩)
        · exact ⟨[], p, rest, .inl ⟨rfl, rfl⟩, by
            rw [List.append_nil]
            exact Part.lacksOperand_iff.2 (.inl hp)⟩
        · exact ⟨[], p, [], .inl ⟨rfl, rfl⟩, Part.lacksOperand_iff.2
            (.inr ⟨Option.some.inj hp, .inl rfl⟩)⟩
        · exact ⟨p :: mid, part, after, .inr ⟨mid, rfl, rfl⟩, hpart⟩
      · rintro ⟨mid, part, after, ⟨rfl, he⟩ | ⟨mid, rfl, rfl⟩, hpart⟩
        · obtain ⟨rfl, rfl⟩ := List.cons.inj he
          rw [List.append_nil, Part.lacksOperand_iff] at hpart
          rcases hpart with hp | ⟨rfl, hlast | hnext⟩
          · exact .inl hp
          · exact .inr (.inl ⟨List.head?_eq_none_iff.1 hlast, rfl⟩)
          · obtain ⟨after, rfl⟩ := List.head?_eq_some_iff.1 hnext
            refine .inr (.inr ⟨[], .oneOrMore, after, rfl, .inr ?_⟩)
            rw [List.getLast?_concat]
        · exact .inr (.inr ⟨mid, part, after, rfl, hpart⟩)

theorem dangles_iff {parts : Alternative} : parts.Dangles ↔ danglesAfter none parts := by
  have h := danglesAfter_iff [] parts
  simpa [Dangles] using h.symm

instance (parts : Alternative) : Decidable parts.Dangles :=
  decidable_of_iff _ dangles_iff.symm

/-- A repetition is no right operand, and one of an operand on the right is. -/
example : Dangles [.literal "x", .or, .oneOrMore] ∧
    ¬Dangles [.literal "x", .or, .symbol "y", .oneOrMore] := by
  decide

end Alternative

/-! ## Phrases -/

namespace RuleTable

/-- What an operator can still stand after is known of the phrases so far and a pending `|`. -/
structure StandsAfter (before : Option Part) (phrases : List Phrase) (pending : Bool) : Prop where
  nothing : phrases = [] ↔ before = none
  or : pending = true ↔ before = some .or

variable {table : RuleTable} {before : Option Part} {phrases : List Phrase} {pending : Bool}

theorem StandsAfter.operand {part : Part} (h : part ≠ .or) (latest : Phrase)
    (phrases : List Phrase) : StandsAfter (some part) (latest :: phrases) false :=
  ⟨by simp, by simp [h]⟩

theorem StandsAfter.attach {part : Part} (h : part ≠ .or) (operand : Phrase) :
    StandsAfter (some part) (attach phrases pending operand) false := by
  cases pending <;> cases phrases <;> exact .operand h _ _

/-- There are phrases unless an operator lacks an operand. -/
theorem phrasesFrom?_eq_none_iff (h : StandsAfter before phrases pending) (parts : Alternative) :
    table.phrasesFrom? phrases pending parts = none ↔ parts.danglesAfter before := by
  induction parts generalizing before phrases pending with
  | nil => simp [phrasesFrom?, Alternative.danglesAfter, h.or]
  | cons part rest ih =>
      cases part with
      | symbol name =>
          simp only [phrasesFrom?, Alternative.danglesAfter, Part.lacksLeft, Bool.false_or]
          exact ih (.attach (by simp) _)
      | literal text =>
          simp only [phrasesFrom?, Alternative.danglesAfter, Part.lacksLeft, Bool.false_or]
          exact ih (.attach (by simp) _)
      | or =>
          by_cases hl : Part.lacksLeft before .or
          · have stop : pending || phrases.isEmpty := by
              simpa [Part.lacksLeft, h.nothing, h.or, or_comm] using hl
            simp [phrasesFrom?, Alternative.danglesAfter, hl, stop]
          · have go : ¬(pending || phrases.isEmpty) := by
              simpa [Part.lacksLeft, h.nothing, h.or, or_comm] using hl
            have left : phrases ≠ [] := by
              rintro rfl
              simp at go
            simp only [phrasesFrom?, Alternative.danglesAfter, hl, go, Bool.false_or]
            exact ih ⟨by simp [left], by simp⟩
      | oneOrMore =>
          cases phrases with
          | nil => simp [phrasesFrom?, Alternative.danglesAfter, Part.lacksLeft, h.nothing.1]
          | cons latest phrases =>
              cases pending with
              | true => simp [phrasesFrom?, Alternative.danglesAfter, Part.lacksLeft, h.or.1]
              | false =>
                  have hl : Part.lacksLeft before .oneOrMore = false := by
                    simp [Part.lacksLeft, Option.isSome_iff_ne_none, ← h.nothing, ← h.or]
                  simp only [phrasesFrom?, Alternative.danglesAfter, hl, Bool.false_or]
                  exact ih (.operand (by simp) _ _)

theorem phrases?_eq_none_iff {parts : Alternative} :
    table.phrases? parts = none ↔ parts.Dangles := by
  rw [Alternative.dangles_iff]
  exact phrasesFrom?_eq_none_iff ⟨by simp, by simp⟩ parts

/-- The table has a rule of the name with the alternative. -/
def HasAlternative (table : RuleTable) (name : String) (parts : Alternative) : Prop :=
  ∃ alternatives, table.get? name = some alternatives ∧ parts ∈ alternatives

theorem hasAlternative_of_mem {name : String} {parts : Alternative}
    (h : parts ∈ (table.get? name).getD []) : table.HasAlternative name parts := by
  cases ha : table.get? name with
  | none => simp [ha] at h
  | some alternatives => exact ⟨alternatives, ha, by simpa [ha] using h⟩

/-- The error names a rule that has an alternative with an operator without an operand. -/
def Blames (table : RuleTable) (e : GrammarError) : Prop :=
  ∃ name parts, e = .danglingOperator name ∧ table.HasAlternative name parts ∧ parts.Dangles

end RuleTable

/-! ## Compilation -/

namespace Graph

variable {table : RuleTable} {tokens : TokenTable}

theorem isEmpty_eq_of_length {α β : Type} {as : List α} {bs : List β}
    (h : as.length = bs.length) : as.isEmpty = bs.isEmpty := by
  cases as <;> cases bs <;> simp_all

theorem length_attach (d : Draft) (items : List Nat) (phrases : List Phrase) (pending : Bool)
    (id : Nat) (operand : Phrase) (h : phrases.length = items.length) :
    (RuleTable.attach phrases pending operand).length = (d.attach items pending id).1.length := by
  cases pending <;> cases phrases <;> cases items <;>
    simp_all [RuleTable.attach, Draft.attach]

/-- What is compiled as an operand is read as one. -/
theorem OperandRun.exists_operand {part : Part} {d : Draft}
    {out : Except GrammarError (Nat × Draft)} (h : OperandRun table tokens part d out) :
    ∃ operand, ∀ phrases pending rest, table.phrasesFrom? phrases pending (part :: rest) =
      table.phrasesFrom? (RuleTable.attach phrases pending operand) false rest := by
  cases h <;> exact ⟨_, fun _ _ _ => rfl⟩

mutual

/-- Compiling a rule stops at an operator without an operand, in it or in a rule below it. -/
theorem RuleRun.blames : ∀ {name : String} {d : Draft} {out : Except GrammarError (Nat × Draft)},
    RuleRun table tokens name d out → ∀ e, out = .error e → table.Blames e
  | _, _, _, .known _ => by rintro _ ⟨⟩
  | _, _, _, .closed _ _ => by rintro _ ⟨⟩
  | _, _, _, .stopped _ ha => by
      rintro _ ⟨⟩
      exact ha.blames (fun _ => RuleTable.hasAlternative_of_mem) _ rfl

theorem AlternativesRun.blames : ∀ {owner : String} {alternatives : List Alternative} {d : Draft}
    {out : Except GrammarError (List Nat × Draft)},
    AlternativesRun table tokens owner alternatives d out →
    (∀ parts ∈ alternatives, table.HasAlternative owner parts) →
    ∀ e, out = .error e → table.Blames e
  | _, _, _, _, .nil => by rintro _ _ ⟨⟩
  | _, _, _, _, .cons _ _ => by rintro _ _ ⟨⟩
  | _, parts :: _, _, _, .stopped hp => by
      rintro hall _ ⟨⟩
      rcases hp.blames _ rfl with hb | ⟨rfl, hn⟩
      · exact hb
      · exact ⟨_, parts, rfl, hall parts List.mem_cons_self,
          RuleTable.phrases?_eq_none_iff.1 (hn [] rfl)⟩
  | _, _, _, _, .later _ ha => by
      rintro hall _ ⟨⟩
      exact ha.blames (fun parts hp => hall parts (List.mem_cons_of_mem _ hp)) _ rfl

/-- Where the parts after some items cannot be compiled, phrases after as many cannot be read
either, or it is the fault of a rule that the parts name. -/
theorem PartsRun.blames : ∀ {owner : String} {items : List Nat} {pending : Bool}
    {parts : Alternative} {d : Draft} {out : Except GrammarError (Nat × Draft)},
    PartsRun table tokens owner items pending parts d out → ∀ e, out = .error e →
    table.Blames e ∨ e = .danglingOperator owner ∧ ∀ phrases : List Phrase,
      phrases.length = items.length → table.phrasesFrom? phrases pending parts = none
  | _, _, _, _, _, _, .done => by rintro _ ⟨⟩
  | _, _, _, _, _, _, .unjoined => by
      rintro _ ⟨⟩
      exact .inr ⟨rfl, fun _ _ => rfl⟩
  | _, _, _, _, _, _, .oneOrMore hp => by
      intro e he
      refine (hp.blames e he).imp_right (And.imp_right fun hn phrases hl => ?_)
      match phrases, hl with
      | latest :: phrases, hl => exact hn (.oneOrMore latest :: phrases) hl
  | _, _, _, _, _, _, .unrepeated hs => by
      rintro _ ⟨⟩
      refine .inr ⟨rfl, fun phrases hl => ?_⟩
      rw [← isEmpty_eq_of_length hl] at hs
      cases phrases <;> simp_all [RuleTable.phrasesFrom?]
  | _, _, _, _, _, _, .or hp => by
      intro e he
      refine (hp.blames e he).imp_right (And.imp_right fun hn phrases hl => ?_)
      match phrases, hl with
      | latest :: phrases, hl => exact hn (latest :: phrases) hl
  | _, _, _, _, _, _, .unaligned hs => by
      rintro _ ⟨⟩
      refine .inr ⟨rfl, fun phrases hl => ?_⟩
      rw [← isEmpty_eq_of_length hl] at hs
      exact if_pos hs
  | _, _, _, _, _, _, .operand ho hp => by
      intro e he
      refine (hp.blames e he).imp_right (And.imp_right fun hn phrases hl => ?_)
      obtain ⟨operand, read⟩ := ho.exists_operand
      rw [read]
      exact hn _ (length_attach _ _ _ _ _ operand hl)
  | _, _, _, _, _, _, .stopped ho => by
      rintro _ ⟨⟩
      exact .inl (ho.blames _ rfl)

theorem OperandRun.blames : ∀ {part : Part} {d : Draft} {out : Except GrammarError (Nat × Draft)},
    OperandRun table tokens part d out → ∀ e, out = .error e → table.Blames e
  | _, _, _, .literal => by rintro _ ⟨⟩
  | _, _, _, .terminal _ => by rintro _ ⟨⟩
  | _, _, _, .rule _ hr => fun _ he => hr.blames _ he

end

theorem RulesRun.blames {names : List String} {d : Draft} {out : Except GrammarError Draft}
    (h : RulesRun table tokens names d out) {e : GrammarError} (he : out = .error e) :
    table.Blames e := by
  induction h with
  | nil => cases he
  | stopped hr => exact hr.blames _ (congrArg _ (Except.error.inj he))
  | cons _ _ ih => exact ih he

theorem blames_of_compile {e : GrammarError} (h : compile table tokens = .error e) :
    table.Blames e := by
  obtain ⟨made, hm, hg⟩ := compileRun_iff.2 h.symm
  cases made with
  | error e' =>
      obtain rfl := Except.error.inj hg
      exact hm.blames rfl
  | ok d => cases hg

/-- No operator of a compiled table lacks an operand. -/
theorem not_dangles_of_compile {g : Graph} (h : compile table tokens = .ok g) {name : String}
    {parts : Alternative} (hp : table.HasAlternative name parts) : ¬parts.Dangles := by
  obtain ⟨alternatives, ha, hp⟩ := hp
  obtain ⟨id, hid⟩ := compile_rule? h (Option.isSome_of_eq_some ha)
  obtain ⟨ids, -, hds⟩ := compile_defines h hid
  rw [ha] at hds
  obtain ⟨i, -, phrases, _, hphrases, -⟩ := exists_left_of_forall₂ hds.flip parts hp
  rw [← RuleTable.phrases?_eq_none_iff, hphrases]
  simp

/-- A table is compiled unless some alternative of some rule has an operator without an operand, and
then the error names a rule with such an alternative. -/
theorem compile_fails_iff_dangles (table : RuleTable) (tokens : TokenTable) :
    ((∃ e, compile table tokens = .error e) ↔
      ∃ name parts, table.HasAlternative name parts ∧ parts.Dangles) ∧
    ∀ e, compile table tokens = .error e → ∃ name parts,
      e = .danglingOperator name ∧ table.HasAlternative name parts ∧ parts.Dangles := by
  refine ⟨⟨?_, ?_⟩, fun e h => blames_of_compile h⟩
  · rintro ⟨e, h⟩
    obtain ⟨name, parts, -, hp, hd⟩ := blames_of_compile h
    exact ⟨name, parts, hp, hd⟩
  · rintro ⟨name, parts, hp, hd⟩
    match h : compile table tokens with
    | .error e => exact ⟨e, rfl⟩
    | .ok g => exact absurd hd (not_dangles_of_compile h hp)

/-- A rule that is in order and refers to one with a `|` that has a repetition for its right
operand. -/
def misjoined : RuleTable :=
  ⟨[("list", [[.symbol "item", .oneOrMore]]),
    ("item", [[.literal "x"], [.literal "x", .or, .oneOrMore]])]⟩

theorem compile_fails_iff_dangles_misjoined :
    compile misjoined ⟨[]⟩ = .error (.danglingOperator "item") ∧
      (∃ name parts, misjoined.HasAlternative name parts ∧ parts.Dangles) ∧
      ∃ name parts, GrammarError.danglingOperator "item" = .danglingOperator name ∧
        misjoined.HasAlternative name parts ∧ parts.Dangles := by
  have fails : compile misjoined ⟨[]⟩ = .error (.danglingOperator "item") := rfl
  obtain ⟨iff, blamed⟩ := compile_fails_iff_dangles misjoined ⟨[]⟩
  exact ⟨fails, iff.1 ⟨_, fails⟩, blamed _ fails⟩

end Graph

end NodeScript
