import NodeScript.Proofs.Grammar.Nonrecursive
import NodeScript.Proofs.Grammar.Operators
import NodeScript.Proofs.OrderedTable

/-!
# Items with a rule of their own

A `+` repeats the item before it: an operand, or what the operators since have joined it to. An item
and its `+` can be given a rule of their own, whose name then stands in their place. The phrases of
the table are then those of the outlined one with the item's phrase for the name.
-/

namespace NodeScript

/-! ## Items -/

/-- The part is no operator. -/
inductive Part.IsOperand : Part → Prop
  | symbol {name : String} : IsOperand (.symbol name)
  | literal {text : String} : IsOperand (.literal text)

/-- The parts make one item: an operand, an item that is repeated, or one that a `|` joins with an
operand. -/
inductive Alternative.IsItem : Alternative → Prop
  | operand {p : Part} : p.IsOperand → IsItem [p]
  | repeated {item : Alternative} : IsItem item → IsItem (item ++ [.oneOrMore])
  | joined {item : Alternative} {p : Part} : IsItem item → p.IsOperand → IsItem (item ++ [.or, p])

namespace Alternative

/-- The parts end with the item, and no `|` waits for it. -/
structure EndsWith (parts outer item : Alternative) : Prop where
  eq : parts = outer ++ item
  isItem : item.IsItem
  outer : outer.getLast? ≠ some .or

/-- An operator that stands in parts that do not dangle has an item before it. -/
theorem exists_item {parts : Alternative} (h : ¬parts.Dangles) (init rest : Alternative)
    (hp : parts = init ++ rest) (hne : init.getLast? ≠ none) (hor : init.getLast? ≠ some .or) :
    ∃ outer item, EndsWith init outer item := by
  have kept (before : Alternative) (part : Part) (after : Alternative)
      (he : parts = before ++ part :: after) : ¬part.LacksOperand before.getLast? after.head? :=
    fun hl => h ⟨before, part, after, he, hl⟩
  obtain ⟨last, hlast⟩ := Option.ne_none_iff_exists'.1 hne
  obtain ⟨front, rfl⟩ := List.getLast?_eq_some_iff.1 hlast
  have operand (hop : last.IsOperand) : ∃ outer item, EndsWith (front ++ [last]) outer item := by
    by_cases hf : front.getLast? = some .or
    · -- the last operand belongs to the item that the `|` before it joins
      obtain ⟨front, rfl⟩ := List.getLast?_eq_some_iff.1 hf
      obtain ⟨hne', hor', -⟩ : front.getLast? ≠ none ∧ front.getLast? ≠ some .or ∧ _ := by
        have := kept front .or (last :: rest) (by simpa using hp)
        simpa only [Part.LacksOperand, not_or] using this
      obtain ⟨outer, item, rfl, hi, ho⟩ :=
        exists_item h front (.or :: last :: rest) (by simpa using hp) hne' hor'
      exact ⟨outer, item ++ [.or, last], by simp, hi.joined hop, ho⟩
    · exact ⟨front, [last], rfl, .operand hop, hf⟩
  cases last with
  | symbol name => exact operand .symbol
  | literal text => exact operand .literal
  | or => exact absurd hlast hor
  | oneOrMore =>
      obtain ⟨hne', hor'⟩ : front.getLast? ≠ none ∧ front.getLast? ≠ some .or := by
        have := kept front .oneOrMore rest (by simpa using hp)
        simpa only [Part.LacksOperand, not_or] using this
      obtain ⟨outer, item, rfl, hi, ho⟩ :=
        exists_item h front (.oneOrMore :: rest) (by simpa using hp) hne' hor'
      exact ⟨outer, item ++ [.oneOrMore], by simp, hi.repeated, ho⟩
termination_by init.length
decreasing_by all_goals grind

end Alternative

/-! ## Phrases -/

/-- The phrase with another in the place of a rule's name. -/
def Phrase.subst (name : String) (body : Phrase) : Phrase → Phrase
  | .rule other => if other = name then body else .rule other
  | .terminal other => .terminal other
  | .literal text => .literal text
  | .alternation left right => .alternation (subst name body left) (subst name body right)
  | .oneOrMore item => .oneOrMore (subst name body item)

theorem Phrase.subst_of_notMem {name : String} {body p : Phrase} (h : name ∉ p.rules) :
    subst name body p = p := by
  induction p with
  | rule other => exact if_neg fun he => h (by simp [rules, ← he])
  | terminal other => rfl
  | literal text => rfl
  | alternation left right ihl ihr =>
      rw [rules, List.mem_append, not_or] at h
      rw [subst, ihl h.1, ihr h.2]
  | oneOrMore item ih => rw [subst, ih h]

namespace RuleTable

variable {table table' : RuleTable} {name : String} {body : Phrase}

theorem map_attach (phrases : List Phrase) (pending : Bool) (operand : Phrase) :
    (attach phrases pending operand).map (Phrase.subst name body) =
      attach (phrases.map (Phrase.subst name body)) pending (Phrase.subst name body operand) := by
  cases pending <;> cases phrases <;> rfl

/-- Whether a `|` waits for its right operand after the parts. -/
def pendingAfter (pending : Bool) (parts : Alternative) : Bool :=
  parts.foldl (fun _ part => part == .or) pending

theorem pendingAfter_false {parts : Alternative} (h : parts.getLast? ≠ some .or) :
    pendingAfter false parts = false := by
  rcases List.eq_nil_or_concat' parts with rfl | ⟨init, last, rfl⟩
  · rfl
  · rw [List.getLast?_concat] at h
    simpa [pendingAfter] using h

/-- Where the symbols of some parts are read alike but for the substitution, and so is what comes
after them, they are read alike with it. -/
theorem map_phrasesFrom?_append {parts rest rest' : Alternative}
    (hs : ∀ other, .symbol other ∈ parts →
      Phrase.subst name body (table'.symbolPhrase other) = table.symbolPhrase other)
    (phrases : List Phrase) (pending : Bool)
    (hr : ∀ phrases, (table'.phrasesFrom? phrases (pendingAfter pending parts) rest').map
      (List.map (Phrase.subst name body)) = table.phrasesFrom?
        (phrases.map (Phrase.subst name body)) (pendingAfter pending parts) rest) :
    (table'.phrasesFrom? phrases pending (parts ++ rest')).map
        (List.map (Phrase.subst name body)) =
      table.phrasesFrom? (phrases.map (Phrase.subst name body)) pending (parts ++ rest) := by
  induction parts generalizing phrases pending with
  | nil => exact hr phrases
  | cons part parts ih =>
      obtain ⟨hpart, hparts⟩ : (∀ other, .symbol other = part → _) ∧
          ∀ other, .symbol other ∈ parts → _ :=
        ⟨fun other he => hs other (he ▸ List.mem_cons_self),
          fun other hm => hs other (List.mem_cons_of_mem _ hm)⟩
      cases part with
      | symbol other =>
          simp only [List.cons_append, phrasesFrom?]
          rw [ih hparts _ false hr, map_attach, hpart other rfl]
      | literal text =>
          simp only [List.cons_append, phrasesFrom?]
          rw [ih hparts _ false hr, map_attach, Phrase.subst]
      | or =>
          simp only [List.cons_append, phrasesFrom?, List.isEmpty_map]
          split
          · rfl
          · exact ih hparts phrases true hr
      | oneOrMore =>
          cases phrases with
          | nil => rfl
          | cons latest before =>
              cases pending with
              | true => rfl
              | false => exact ih hparts (.oneOrMore latest :: before) false hr

theorem map_phrasesFrom? {parts : Alternative} (hs : ∀ other, .symbol other ∈ parts →
      Phrase.subst name body (table'.symbolPhrase other) = table.symbolPhrase other)
    (phrases : List Phrase) (pending : Bool) :
    (table'.phrasesFrom? phrases pending parts).map (List.map (Phrase.subst name body)) =
      table.phrasesFrom? (phrases.map (Phrase.subst name body)) pending parts := by
  have ends (phrases : List Phrase) (pending : Bool) :
      (table'.phrasesFrom? phrases pending []).map (List.map (Phrase.subst name body)) =
        table.phrasesFrom? (phrases.map (Phrase.subst name body)) pending [] := by
    cases pending <;> simp [phrasesFrom?]
  have := map_phrasesFrom?_append hs phrases pending fun phrases => ends phrases _
  rwa [List.append_nil] at this

/-- An item is read as one phrase, whatever stands before and after it, by all tables that read its
symbols alike. -/
theorem exists_itemPhrase (table : RuleTable) {item : Alternative} (h : item.IsItem) :
    ∃ p : Phrase, ∀ table' : RuleTable, (∀ other, .symbol other ∈ item →
      table'.symbolPhrase other = table.symbolPhrase other) → ∀ phrases rest,
      table'.phrasesFrom? phrases false (item ++ rest) =
        table'.phrasesFrom? (p :: phrases) false rest := by
  induction h with
  | @operand p hp =>
      cases hp with
      | @symbol name =>
          refine ⟨table.symbolPhrase name, fun table' hs phrases rest => ?_⟩
          simp [phrasesFrom?, attach, hs name (List.mem_singleton_self _)]
      | @literal text => exact ⟨.literal text, fun table' _ phrases rest => rfl⟩
  | @repeated item _ ih =>
      obtain ⟨p, hp⟩ := ih
      refine ⟨.oneOrMore p, fun table' hs phrases rest => ?_⟩
      rw [List.append_assoc, hp table' fun other hm => hs other (List.mem_append_left _ hm)]
      rfl
  | @joined item q _ hq ih =>
      obtain ⟨p, hp⟩ := ih
      have later (table' : RuleTable) (hs : ∀ other, .symbol other ∈ item ++ [.or, q] →
          table'.symbolPhrase other = table.symbolPhrase other) (phrases : List Phrase)
          (rest : Alternative) : table'.phrasesFrom? phrases false (item ++ [.or, q] ++ rest) =
            table'.phrasesFrom? (p :: phrases) true (q :: rest) := by
        rw [List.append_assoc, hp table' fun other hm => hs other (List.mem_append_left _ hm)]
        rfl
      cases hq with
      | @symbol name =>
          refine ⟨.alternation p (table.symbolPhrase name), fun table' hs phrases rest => ?_⟩
          rw [later table' hs]
          simp [phrasesFrom?, attach, hs name (by simp)]
      | @literal text =>
          refine ⟨.alternation p (.literal text), fun table' hs phrases rest => ?_⟩
          rw [later table' hs]
          rfl

/-! ## Outlined tables -/

/-- The table with other alternatives of a rule, and with a rule of one alternative at its end. -/
def outline (table : RuleTable) (owner : String) (alternatives : List Alternative) (name : String)
    (parts : Alternative) : RuleTable :=
  RuleTable.push (table.alter owner (fun _ => alternatives) alternatives) name parts

/-- The first table has the rule `name` for an item with its `+`, and is else the second with that
name wherever the one table has the phrase of the other. -/
structure Outlines (table' table : RuleTable) (name : String) (item : Phrase) : Prop where
  contains_iff : ∀ other, table'.contains other ↔ other = name ∨ table.contains other
  notMem : name ∉ item.rules
  body : ∃ parts, table'.get? name = some [parts] ∧
    table'.phrases? parts = some [.oneOrMore item] ∧ table.phrases? parts = some [.oneOrMore item]
  alternatives : ∀ other, other ≠ name → List.Forall₂ (fun parts' parts =>
      (table'.phrases? parts').map (List.map (Phrase.subst name (.oneOrMore item))) =
        table.phrases? parts)
    ((table'.get? other).getD []) ((table.get? other).getD [])

theorem get?_outline {owner : String} (ho : owner ≠ name) (hn : table.contains name = false)
    (alternatives : List Alternative) (parts : Alternative) (other : String) :
    (table.outline owner alternatives name parts).get? other =
      if other = name then some [parts]
      else if other = owner then some alternatives else table.get? other := by
  have none : table.get? name = none := by simpa [OrderedTable.contains] using hn
  have altered (other : String) :
      (OrderedTable.alter table owner (fun _ => alternatives) alternatives).get? other =
        if other = owner then some alternatives else table.get? other := by
    rw [OrderedTable.get?_alter]
    cases table.get? owner <;> rfl
  rw [outline, push, OrderedTable.get?_alter, altered, altered, if_neg ho.symm, none]
  rfl

theorem contains_outline {owner : String} (ho : table.contains owner)
    (hn : table.contains name = false) (alternatives : List Alternative) (parts : Alternative)
    (other : String) :
    (table.outline owner alternatives name parts).contains other ↔
      other = name ∨ table.contains other := by
  rw [OrderedTable.contains, get?_outline (OrderedTable.ne_of_contains ho hn) hn]
  by_cases h : other = name
  · simp [h]
  · by_cases h' : other = owner
    · subst h'
      simp [h, ho]
    · simp [h, h', OrderedTable.contains]

section Alike

variable (hc : ∀ other, table'.contains other ↔ other = name ∨ table.contains other)
include hc

theorem symbolPhrase_eq {other : String} (h : other ≠ name) :
    table'.symbolPhrase other = table.symbolPhrase other := by
  have : table'.contains other ↔ table.contains other := by simp [hc, h]
  simp only [symbolPhrase, this]

theorem subst_symbolPhrase (body : Phrase) {other : String} (h : other ≠ name) :
    Phrase.subst name body (table'.symbolPhrase other) = table.symbolPhrase other := by
  rw [symbolPhrase_eq hc h]
  exact Phrase.subst_of_notMem fun hm => h (rules_symbolPhrase hm).2.symm

/-- Parts without the new name are read as they were. -/
theorem map_phrases?_of_notMem (body : Phrase) {parts : Alternative}
    (h : .symbol name ∉ parts) :
    (table'.phrases? parts).map (List.map (Phrase.subst name body)) = table.phrases? parts :=
  map_phrasesFrom? (fun _ hm => subst_symbolPhrase hc body fun he => h (he ▸ hm)) [] false

/-- Where the new name stands for an item with its `+`, the phrase of both is read. -/
theorem map_phrases?_place {outer item back : Alternative} {p : Phrase}
    (ho : outer.getLast? ≠ some .or) (hf : .symbol name ∉ outer ++ item ++ .oneOrMore :: back)
    (hp : ∀ phrases rest, table.phrasesFrom? phrases false (item ++ rest) =
      table.phrasesFrom? (p :: phrases) false rest) :
    (table'.phrases? (outer ++ .symbol name :: back)).map
        (List.map (Phrase.subst name (.oneOrMore p))) =
      table.phrases? (outer ++ item ++ .oneOrMore :: back) := by
  have mapped {other : String} (hm : .symbol other ∈ outer ++ back) :
      Phrase.subst name (.oneOrMore p) (table'.symbolPhrase other) = table.symbolPhrase other := by
    refine subst_symbolPhrase hc _ fun he => hf ?_
    rcases List.mem_append.1 (he ▸ hm) with hm | hm <;> simp [hm]
  rw [phrases?, phrases?, List.append_assoc]
  refine map_phrasesFrom?_append (fun _ hm => mapped (List.mem_append_left _ hm)) [] false
    fun phrases => ?_
  -- so far both have read the same; now comes the name on one side, and the item on the other
  have symbol : table'.symbolPhrase name = .rule name := by simp [symbolPhrase, hc]
  have rest := map_phrasesFrom? (fun _ hm => mapped (List.mem_append_right _ hm))
    (.rule name :: phrases) false
  rw [pendingAfter_false ho, hp]
  simp only [phrasesFrom?, attach, symbol]
  rw [rest, List.map_cons, Phrase.subst, if_pos rfl]
  rfl

end Alike

/-- Giving an item and its `+` a rule of a new name outlines the table. -/
theorem outlines_outline {owner : String} {earlier later : List Alternative}
    {outer item back : Alternative} (ha : table.get? owner =
      some (earlier ++ (outer ++ item ++ .oneOrMore :: back) :: later))
    (hi : item.IsItem) (ho : outer.getLast? ≠ some .or) (hn : table.contains name = false)
    (hf : ∀ other parts, table.HasAlternative other parts → .symbol name ∉ parts) :
    ∃ p, Outlines (table.outline owner (earlier ++ (outer ++ .symbol name :: back) :: later) name
      (item ++ [.oneOrMore])) table name p := by
  obtain ⟨p, hp⟩ := table.exists_itemPhrase hi
  have hown : table.contains owner := by simp [OrderedTable.contains, ha]
  have hne : owner ≠ name := OrderedTable.ne_of_contains hown hn
  have get := get?_outline hne hn (earlier ++ (outer ++ .symbol name :: back) :: later)
    (item ++ [.oneOrMore])
  have hc := contains_outline hown hn (earlier ++ (outer ++ .symbol name :: back) :: later)
    (item ++ [.oneOrMore])
  generalize table.outline owner _ name (item ++ [.oneOrMore]) = table' at get hc ⊢
  have read := hp table fun _ _ => rfl
  have place : .symbol name ∉ outer ++ item ++ .oneOrMore :: back :=
    hf owner _ ⟨_, ha, by simp⟩
  refine ⟨p, hc, ?_, ⟨_, by rw [get, if_pos rfl], ?_, read [] [.oneOrMore]⟩,
    fun other hother => ?_⟩
  · intro h
    obtain ⟨h, -⟩ := symbol_of_phrases? (read [] []) (List.mem_singleton_self p) h
    rw [hn] at h
    cases h
  · refine hp table' (fun _ hm => symbolPhrase_eq hc ?_) [] [.oneOrMore]
    rintro rfl
    exact place (by simp [hm])
  · rw [get, if_neg hother]
    by_cases h : other = owner
    · subst h
      rw [if_pos rfl, ha]
      have same {parts : Alternative} (h : parts ∈ earlier ++ later) :=
        map_phrases?_of_notMem hc (.oneOrMore p) (hf other parts ⟨_, ha, by
          rcases List.mem_append.1 h with h | h <;> simp [h]⟩)
      exact List.rel_append (List.forall₂_same.2 fun _ hm => same (List.mem_append_left _ hm))
        (.cons (map_phrases?_place hc ho place read)
          (List.forall₂_same.2 fun _ hm => same (List.mem_append_right _ hm)))
    · rw [if_neg h]
      exact List.forall₂_same.2 fun parts hm =>
        map_phrases?_of_notMem hc _ (hf other parts (hasAlternative_of_mem hm))

end RuleTable

end NodeScript
