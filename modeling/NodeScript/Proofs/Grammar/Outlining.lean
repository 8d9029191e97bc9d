import NodeScript.Proofs.Grammar.Items
import NodeScript.Proofs.Grammar.Spared
import NodeScript.Proofs.Tree.Folding

/-!
# Matching with outlined tables

An item that is repeated matches what a rule of its own matches in its place, wherever the limit on
nesting is not reached: the rule takes one level, and nothing else.
-/

namespace NodeScript

/-- A rule without a builder whose one alternative is a repetition reads what the repetition
reads. -/
theorem Reading.rule_oneOrMore {input : Input} {name : String}
    (hb : input.builders.get? name = none) (limit : Nat) (read : Reading) (position : Nat) :
    (Reading.rule input name [.sequence [.oneOrMore limit read]] position).toOption =
      (Reading.oneOrMore limit read position).toOption := by
  have built (t : Tree) : input.builders.build name t = .ok t := by rw [BuilderTable.build, hb]
  simp only [rule, sequence, all, oneOrMore]
  cases read position with
  | error f => rfl
  | ok success => simp [built, Except.map, Tree.flatten, Tree.flatten_flatten, Except.toOption]

namespace Graph

open Machine (Agrees FollowAll Spared)

variable {g g' : Graph} {table table' : RuleTable} {tokens : TokenTable} {input : Input}
  {name : String} {item : Phrase}

/-- Outlining adds no operator without an operand. -/
theorem compile_outlines (ho : table'.Outlines table name item)
    (h : compile table tokens = .ok g) : ∃ g', compile table' tokens = .ok g' := by
  cases h' : compile table' tokens with
  | ok g' => exact ⟨g', rfl⟩
  | error e =>
      exfalso
      obtain ⟨other, parts, -, ⟨alternatives, ha, hm⟩, hd⟩ := blames_of_compile h'
      have none : table'.phrases? parts = none := RuleTable.phrases?_eq_none_iff.2 hd
      by_cases hother : other = name
      · subst hother
        obtain ⟨body, hbody, hphrases, -⟩ := ho.body
        obtain rfl : alternatives = [body] := by simpa [ha] using hbody
        obtain rfl := List.mem_singleton.1 hm
        simp [hphrases] at none
      · obtain ⟨before, hbefore, heq⟩ := exists_left_of_forall₂ (ho.alternatives other hother).flip
          parts (by simpa [ha] using hm)
        rw [none] at heq
        exact not_dangles_of_compile h (RuleTable.hasAlternative_of_mem hbefore)
          (RuleTable.phrases?_eq_none_iff.1 heq.symm)

section Levels

variable (h' : compile table' tokens = .ok g') {budget : Nat} {read : String → Reading}
  {body : Phrase}
include h'

/-- Phrases agree where rules do. -/
theorem agrees_phrase (hr : ∀ {other : String} {id : Nat}, g'.rule? other = some id →
      Agrees g' input budget id ((Phrase.subst name body (.rule other)).read tokens input read)
        (table'.evaluate tokens input budget other)) :
    ∀ {p : Phrase} {id : Nat}, g'.Denotes tokens p id →
      Agrees g' input budget id ((Phrase.subst name body p).read tokens input read)
        (p.read tokens input (table'.evaluate tokens input budget))
  | .rule _, _, hp => hr hp
  | .terminal _, _, _ => fun _ _ _ _ _ => rfl
  | .literal _, _, _ => fun _ _ _ _ _ => rfl
  | .alternation _ _, _, ⟨_, _, hn, _, _, hl, hr'⟩ =>
      Machine.agrees_alternation hn ⟨hl.brings h' budget, agrees_phrase hr hl⟩
        ⟨hr'.brings h' budget, agrees_phrase hr hr'⟩
  | .oneOrMore _, _, ⟨_, hn, _, hb⟩ =>
      Machine.agrees_repetition hn ⟨hb.brings h' budget, agrees_phrase hr hb⟩ _

/-- Alternatives agree where their phrases do. -/
theorem followAll_alternatives (hp : ∀ {p : Phrase} {id : Nat}, g'.Denotes tokens p id →
      Agrees g' input budget id ((Phrase.subst name body p).read tokens input read)
        (p.read tokens input (table'.evaluate tokens input budget)))
    {before after : List Alternative} {ids : List Nat}
    (ha : List.Forall₂ (fun parts' parts =>
      (table'.phrases? parts').map (List.map (Phrase.subst name body)) = table.phrases? parts)
      after before)
    (hd : List.Forall₂ (g'.DenotesParts table' tokens) after ids) :
    FollowAll g' input budget ids (before.map (table.readAlternative tokens input read))
      (after.map (table'.readAlternative tokens input (table'.evaluate tokens input budget))) := by
  induction ha generalizing ids with
  | nil =>
      cases hd
      exact .nil
  | cons heq _ ih =>
      obtain _ | ⟨hparts, hd⟩ := hd
      refine .cons ⟨hparts.brings h' budget, ?_⟩ (ih hd)
      obtain ⟨phrases, below, hphrases, hn, hden, -⟩ := hparts
      rw [hphrases] at heq
      simp only [RuleTable.readAlternative, hphrases, ← heq, Option.map_some]
      refine Machine.agrees_sequence hn ?_
      clear hphrases hn heq
      induction hden with
      | nil => exact .nil
      | cons hden _ ih' => exact .cons ⟨hden.brings h' budget, hp hden⟩ ih'

end Levels

/-- Wherever the run on the outlined table is spared, reading the phrases as they were before has
the same successes, with as many rules in one another or more. -/
theorem agrees_outlines (ho : table'.Outlines table name item)
    (h' : compile table' tokens = .ok g') (hb : input.builders.get? name = none)
    {budget budget' : Nat} (hle : budget' ≤ budget) {p : Phrase} {id : Nat}
    (hp : g'.Denotes tokens p id) :
    Agrees g' input budget' id
      ((Phrase.subst name (.oneOrMore item) p).read tokens input
        (table.evaluate tokens input budget))
      (p.read tokens input (table'.evaluate tokens input budget')) := by
  induction budget' generalizing budget p id with
  | zero =>
      refine agrees_phrase h' (fun {other id} hid => ?_) hp
      obtain ⟨ids, hn, -⟩ := compile_defines h' hid
      exact Machine.agrees_limit hn _ _
  | succ budget' ih =>
      refine agrees_phrase h' (fun {other id} hid => ?_) hp
      obtain ⟨ids, hn, hds⟩ := compile_defines h' hid
      by_cases hother : other = name
      · -- the new rule, below which the item is repeated as it is in the old table
        subst hother
        obtain ⟨parts, hparts, hphrases', hphrases⟩ := ho.body
        have same : Phrase.subst other (.oneOrMore item) (.oneOrMore item) = .oneOrMore item :=
          Phrase.subst_of_notMem ho.notMem
        have alternatives : List.Forall₂ (fun parts' parts =>
            (table'.phrases? parts').map (List.map (Phrase.subst other (.oneOrMore item))) =
              table.phrases? parts) [parts] [parts] :=
          .cons (by simp [hphrases, hphrases', same]) .nil
        rw [hparts] at hds
        have agree := Machine.agrees_rule hn (followAll_alternatives h'
          (fun hp => ih (Nat.le_of_succ_le hle) hp) alternatives hds)
        intro position stack r hs hr
        rw [RuleTable.evaluate, hparts, Option.getD_some, ← agree position stack r hs hr]
        simp only [List.map_cons, List.map_nil, RuleTable.readAlternative, hphrases, Phrase.subst,
          if_pos, Phrase.read]
        exact (Reading.rule_oneOrMore hb _ _ position).symm
      · -- a rule of both tables, with one level less for its alternatives
        obtain ⟨budget, rfl⟩ : ∃ b, budget = b + 1 := ⟨budget - 1, by omega⟩
        rw [Phrase.subst, if_neg hother]
        exact Machine.agrees_rule hn (followAll_alternatives h'
          (fun hp => ih (Nat.le_of_succ_le_succ hle) hp) (ho.alternatives other hother) hds)

/-- A grammar without recursion and with no more rules than the nesting limit spares all runs. -/
theorem spared_of_nonrecursive (h : compile table tokens = .ok g) (hr : table.IsNonrecursive)
    (hl : table.entries.length ≤ nestingLimit) (id position : Nat) :
    Spared g input ⟨.node id position, [], .fresh⟩ := by
  refine Machine.HasRoom.not_isAtLimit (hasHeights h hr) ⟨fun i hi => ?_, trivial⟩
  obtain rfl := List.mem_singleton.1 hi
  exact (Nat.zero_add _).trans_le (Nat.le_trans (card_rulesMet_le g table _) hl)

/-- A `+` belongs to the whole item before it. Where an operand is followed by a `+`, the parts up
to it end with an item, which is the operand alone unless a `|` joins it to what is before. Giving
that item and its `+` a rule of their own, with a name that is not in use, leaves what every rule
matches as it is: the outlined table is compiled too, and wherever its run does not come to the
limit on nesting, both tables match the same trees up to the same positions. -/
theorem resolve_outline (h : compile table tokens = .ok g) {owner : String}
    {earlier later : List Alternative} {front back : Alternative} {p : Part}
    (ha : table.get? owner = some (earlier ++ (front ++ p :: .oneOrMore :: back) :: later))
    (hp : p.IsOperand) (hn : table.contains name = false)
    (hf : ∀ other parts, table.HasAlternative other parts → .symbol name ∉ parts) :
    (∃ outer item, Alternative.EndsWith (front ++ [p]) outer item) ∧
    (front.getLast? ≠ some .or → Alternative.EndsWith (front ++ [p]) front [p]) ∧
    ∀ outer item, Alternative.EndsWith (front ++ [p]) outer item →
      ∃ g', compile (table.outline owner (earlier ++ (outer ++ .symbol name :: back) :: later) name
          (item ++ [.oneOrMore])) tokens = .ok g' ∧
        ∀ rule, table.contains rule → ∃ id id', g.rule? rule = some id ∧
          g'.rule? rule = some id' ∧ ∀ (input : Input) (position : Nat),
            input.builders.get? name = none →
            Spared g' input ⟨.node id' position, [], .fresh⟩ → ∀ t next d d',
              (g.resolve input id position d).1 = .ok (t, next) ↔
                (g'.resolve input id' position d').1 = .ok (t, next) := by
  refine ⟨?_, fun hor => ⟨rfl, .operand hp, hor⟩, fun outer item he => ?_⟩
  · have place : table.HasAlternative owner (front ++ p :: .oneOrMore :: back) :=
      ⟨_, ha, by simp⟩
    refine Alternative.exists_item (not_dangles_of_compile h place) (front ++ [p])
      (.oneOrMore :: back) (by simp) (by simp) ?_
    rw [List.getLast?_concat]
    cases hp <;> simp
  · have hparts : front ++ p :: .oneOrMore :: back = outer ++ item ++ .oneOrMore :: back := by
      rw [← he.eq]
      simp
    rw [hparts] at ha
    obtain ⟨phrase, ho⟩ := RuleTable.outlines_outline ha he.isItem he.outer hn hf
    obtain ⟨g', h'⟩ := compile_outlines ho h
    refine ⟨g', h', fun rule hrule => ?_⟩
    obtain ⟨id, hid⟩ := compile_rule? h hrule
    obtain ⟨id', hid'⟩ := compile_rule? h' ((ho.contains_iff rule).2 (.inr hrule))
    have hne : rule ≠ name := OrderedTable.ne_of_contains hrule hn
    refine ⟨id, id', hid, hid', fun input position hb hs t next d d' => ?_⟩
    have agree := agrees_outlines ho h' hb (Nat.le_refl nestingLimit) (p := .rule rule) hid'
      position [] .fresh hs rfl
    rw [Phrase.subst, if_neg hne] at agree
    have success {out : Outcome} : out = .ok (t, next) ↔ out.toOption = some (t, next) := by
      cases out <;> simp [Except.toOption]
    rw [resolve, resolve, resolveWithin_gives h input nestingLimit hid position d,
      resolveWithin_gives h' input nestingLimit hid' position d', success, success]
    exact Eq.congr_left agree

/-- A choice of two words with a `+`. -/
def choice : RuleTable :=
  ⟨[("x", [[.literal "a", .or, .literal "b", .oneOrMore]])]⟩

/-- The choice with a rule of its own for the item that is repeated. -/
def choiceOfItem : RuleTable :=
  choice.outline "x" [[.symbol "h"]] "h" [.literal "a", .or, .literal "b", .oneOrMore]

/-- The choice with a rule of its own for its right operand and the `+`. -/
def choiceOfOperand : RuleTable :=
  choice.outline "x" [[.literal "a", .or, .symbol "h"]] "h" [.literal "b", .oneOrMore]

def choiceInput : Input :=
  ⟨#[⟨"WORD", "a", none, ⟨0, 1⟩⟩, ⟨"WORD", "b", none, ⟨2, 3⟩⟩], .empty⟩

theorem symbol_notMem_choice {other : String} {parts : Alternative}
    (h : choice.HasAlternative other parts) : .symbol "h" ∉ parts := by
  obtain ⟨alternatives, ha, hm⟩ := h
  simp only [choice, OrderedTable.get?, List.lookup_cons, List.lookup_nil] at ha
  split at ha
  · obtain rfl := Option.some.inj ha
    simp_all
  · cases ha

theorem resolve_outline_choice : ∃ g g' id id' t, compile choice ⟨[]⟩ = .ok g ∧
    compile choiceOfItem ⟨[]⟩ = .ok g' ∧ g.rule? "x" = some id ∧ g'.rule? "x" = some id' ∧
    Spared g' choiceInput ⟨.node id' 0, [], .fresh⟩ ∧
    (g.resolve choiceInput id 0 .empty).1 = .ok (t, 2) ∧
    (g'.resolve choiceInput id' 0 .empty).1 = .ok (t, 2) := by
  match h : compile choice ⟨[]⟩ with
  | .error e => cases h
  | .ok g =>
      have place : choice.get? "x" = some ([] ++ ([.literal "a", .or] ++ .literal "b" ::
        .oneOrMore :: []) :: []) := rfl
      obtain ⟨-, -, all⟩ := resolve_outline h place .literal rfl fun _ _ => symbol_notMem_choice
      obtain ⟨g', h', rules⟩ := all [] [.literal "a", .or, .literal "b"]
        ⟨rfl, .joined (.operand .literal) .literal, by simp⟩
      obtain ⟨id, id', hid, hid', same⟩ := rules "x" rfl
      have spared : Spared g' choiceInput ⟨.node id' 0, [], .fresh⟩ := by
        refine spared_of_nonrecursive h' ?_ (by decide) id' 0
        exact RuleTable.isNonrecursive_of_lt (fun name => if name = "h" then 1 else 0) (by decide)
      have both := (resolveWithin_gives h choiceInput nestingLimit hid 0 .empty).trans
        (rfl : _ = Except.ok (Tree.list (choiceInput.tokens.toList.map .token), 2))
      exact ⟨g, g', id, id', _, rfl, h', hid, hid', spared, both,
        (same choiceInput 0 rfl spared _ _ _ _).1 both⟩

/-- The right operand of a `|` has not the `+` for itself: with a rule for the two of them, the rule
stops where it went on before. -/
theorem resolve_outline_operand : ∃ g g' id id', compile choice ⟨[]⟩ = .ok g ∧
    compile choiceOfOperand ⟨[]⟩ = .ok g' ∧ g.rule? "x" = some id ∧ g'.rule? "x" = some id' ∧
    Spared g choiceInput ⟨.node id 0, [], .fresh⟩ ∧
    Spared g' choiceInput ⟨.node id' 0, [], .fresh⟩ ∧
    (g.resolve choiceInput id 0 .empty).1.map Prod.snd = .ok 2 ∧
    (g'.resolve choiceInput id' 0 .empty).1.map Prod.snd = .ok 1 := by
  match h : compile choice ⟨[]⟩, h' : compile choiceOfOperand ⟨[]⟩ with
  | .error e, _ => cases h
  | .ok _, .error e => cases h'
  | .ok g, .ok g' =>
      obtain ⟨id, hid⟩ : ∃ id, g.rule? "x" = some id := compile_rule? h rfl
      obtain ⟨id', hid'⟩ : ∃ id, g'.rule? "x" = some id := compile_rule? h' rfl
      refine ⟨g, g', id, id', rfl, rfl, hid, hid', ?_, ?_, ?_, ?_⟩
      · refine spared_of_nonrecursive h ?_ (by decide) id 0
        exact RuleTable.isNonrecursive_of_lt (fun _ => 0) (by decide)
      · refine spared_of_nonrecursive h' ?_ (by decide) id' 0
        exact RuleTable.isNonrecursive_of_lt (fun name => if name = "h" then 1 else 0) (by decide)
      · rw [resolve, resolveWithin_gives h choiceInput nestingLimit hid 0 .empty]
        rfl
      · rw [resolve, resolveWithin_gives h' choiceInput nestingLimit hid' 0 .empty]
        rfl

end Graph

end NodeScript
