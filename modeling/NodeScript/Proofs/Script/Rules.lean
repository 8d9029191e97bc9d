import NodeScript.Grammar.Shipped
import NodeScript.Proofs.Grammar.Remaining

/-!
# The rules of scripts

The shipped grammar as a table, and what its rules read off the tokens that remain, one equation a
rule.
-/

namespace NodeScript

namespace RuleTable

open NodeScript.Part

/-- The rules of node scripts. -/
def script : RuleTable := ⟨[
  ("main", [[symbol "statement", oneOrMore]]),
  ("statement", [[symbol "node", or, symbol "tcl_command"]]),
  ("node", [
    [symbol "WORD", literal "\x7b", symbol "knobs", literal "\x7d", symbol "tcl_command"],
    [symbol "WORD", literal "\x7b", symbol "knobs", literal "\x7d"],
    [symbol "WORD", literal "\x7b", literal "\x7d", symbol "tcl_command"],
    [symbol "WORD", literal "\x7b", literal "\x7d"]]),
  ("knobs", [[symbol "knob", oneOrMore]]),
  ("knob", [[symbol "WORD", symbol "knob_value"]]),
  ("knob_value", [[symbol "animated_value"], [symbol "multi_value"], [symbol "scalar"]]),
  ("scalar", [[symbol "FLOAT", or, symbol "INT", or, symbol "STRING", or, symbol "WORD"]]),
  ("number", [[symbol "FLOAT", or, symbol "INT"]]),
  ("multi_value", [
    [literal "\x7b", symbol "scalar", oneOrMore, literal "\x7d"],
    [literal "(", symbol "scalar", oneOrMore, literal ")"]]),
  ("animated_value", [[literal "\x7b", symbol "curve", literal "\x7d"], [symbol "curve"]]),
  ("curve", [[literal "\x7b", literal "curve", symbol "keyframe", oneOrMore, literal "\x7d"]]),
  ("keyframe", [[symbol "FRAME", symbol "number"]]),
  ("tcl_command", [
    [literal "set", symbol "WORD", literal "[", literal "stack", symbol "INT", literal "]"],
    [literal "push", literal "$", symbol "WORD"],
    [literal "push", symbol "INT"],
    [literal "version", symbol "FLOAT", symbol "WORD"],
    [literal "version", symbol "FLOAT"]])]⟩

theorem eq_ok_of_entries {ε α : Type} {r : Except ε (OrderedTable α)} {t : OrderedTable α}
    (h : r.toOption.map OrderedTable.entries = some t.entries) : r = .ok t := by
  cases r with
  | error e => simp [Except.toOption] at h
  | ok t' =>
      cases t'
      simp only [Except.toOption, Option.map_some, Option.some.injEq] at h
      rw [h]

/-- The shipped grammar text holds the rules of node scripts. -/
theorem read_scriptText : read scriptText = .ok script := by
  apply eq_ok_of_entries
  have h : ∀ l ∈ scriptLines, '\n' ∉ l.toList ∧ l.toList.getLast? ≠ some '\r' := by decide +kernel
  rw [read, scriptText, Text.lines_unlines h]
  decide +kernel

theorem layer_script : layer OrderedTable.empty script = script := by
  have h : (layer OrderedTable.empty script).entries = script.entries := by decide +kernel
  generalize layer OrderedTable.empty script = t at h
  exact congrArg OrderedTable.mk h

/-- Reads phrases one after the other off the tokens that remain; without phrases nothing can be
read. -/
def descendPhrases (tokens : TokenTable) (limit : Nat) (enter : String → Descent) :
    Option (List Phrase) → Descent
  | some phrases => .sequence (phrases.map (·.descend tokens limit enter))
  | none => fun _ => none

theorem descend_succ (table : RuleTable) (tokens : TokenTable) (builders : BuilderTable)
    (limit budget : Nat) (name : String) :
    table.descend tokens builders limit (budget + 1) name =
      .rule builders name ((table.phrasesOf name).map
        (descendPhrases tokens limit (table.descend tokens builders limit budget))) := by
  rw [descend, phrasesOf, List.map_map]
  congr 2

end RuleTable

theorem Phrase.descend_congr {tokens : TokenTable} {limit : Nat} {enter enter' : String → Descent}
    (p : Phrase) (h : ∀ name ∈ p.rules, enter' name = enter name) :
    p.descend tokens limit enter' = p.descend tokens limit enter := by
  induction p with
  | rule name => exact h name (List.mem_singleton_self name)
  | terminal name => rfl
  | literal text => rfl
  | alternation left right ihl ihr =>
      obtain ⟨hl, hr⟩ := List.forall_mem_append.1 h
      rw [descend, descend, ihl hl, ihr hr]
  | oneOrMore body ih => rw [descend, descend, ih h]

namespace RuleTable

/-- The rules that the alternatives of a rule refer to. -/
def references (table : RuleTable) (name : String) : List String :=
  (table.phrasesOf name).flatMap fun phrases => (phrases.getD []).flatMap Phrase.rules

/-- Rules that refer only to one another are read alike by tables that have the same alternatives
for them. -/
theorem descend_congr {table table' : RuleTable} {tokens : TokenTable} {builders : BuilderTable}
    {limit : Nat} {names : List String}
    (h : ∀ name ∈ names, table'.phrasesOf name = table.phrasesOf name)
    (hc : ∀ name ∈ names, ∀ other ∈ table.references name, other ∈ names) (budget : Nat) :
    ∀ name ∈ names, table'.descend tokens builders limit budget name =
      table.descend tokens builders limit budget name := by
  induction budget with
  | zero => exact fun _ _ => rfl
  | succ budget ih =>
      intro name hname
      rw [descend_succ, descend_succ, h name hname]
      congr 1
      refine List.map_congr_left fun alternative ha => ?_
      match alternative with
      | none => rfl
      | some phrases =>
          have hp : ∀ p ∈ phrases,
              p.descend tokens limit (table'.descend tokens builders limit budget) =
                p.descend tokens limit (table.descend tokens builders limit budget) := fun p hp =>
            p.descend_congr fun other ho => ih other (hc name hname other (List.mem_flatMap.2
              ⟨some phrases, ha, List.mem_flatMap.2 ⟨p, hp, ho⟩⟩))
          rw [descendPhrases, descendPhrases, List.map_congr_left hp]

end RuleTable

end NodeScript
