import NodeScript.Proofs.Script.Rules
import NodeScript.Proofs.Script.Syntax

/-!
# Reading scripts by their rules

What the rules of scripts read off the tokens that remain, rule by rule: the pieces of the syntax,
with the trees that the builders make of them.
-/

namespace NodeScript

namespace RuleTable

theorem phrasesOf_scalar : script.phrasesOf "scalar" = [some [.alternation (.alternation
    (.alternation (.terminal "FLOAT") (.terminal "INT")) (.terminal "STRING"))
    (.terminal "WORD")]] := by
  rfl

theorem phrasesOf_number : script.phrasesOf "number" =
    [some [.alternation (.terminal "FLOAT") (.terminal "INT")]] := by
  rfl

theorem phrasesOf_keyframe : script.phrasesOf "keyframe" =
    [some [.terminal "FRAME", .rule "number"]] := by
  rfl

theorem phrasesOf_curve : script.phrasesOf "curve" =
    [some [.literal "\x7b", .literal "curve", .oneOrMore (.rule "keyframe"), .literal "\x7d"]] := by
  rfl

theorem phrasesOf_animatedValue : script.phrasesOf "animated_value" =
    [some [.literal "\x7b", .rule "curve", .literal "\x7d"], some [.rule "curve"]] := by
  rfl

theorem phrasesOf_multiValue : script.phrasesOf "multi_value" =
    [some [.literal "\x7b", .oneOrMore (.rule "scalar"), .literal "\x7d"],
      some [.literal "(", .oneOrMore (.rule "scalar"), .literal ")"]] := by
  rfl

theorem phrasesOf_knobValue : script.phrasesOf "knob_value" =
    [some [.rule "animated_value"], some [.rule "multi_value"], some [.rule "scalar"]] := by
  rfl

theorem phrasesOf_knob : script.phrasesOf "knob" =
    [some [.terminal "WORD", .rule "knob_value"]] := by
  rfl

theorem phrasesOf_knobs : script.phrasesOf "knobs" = [some [.oneOrMore (.rule "knob")]] := by
  rfl

theorem phrasesOf_command : script.phrasesOf "tcl_command" =
    [some [.literal "set", .terminal "WORD", .literal "[", .literal "stack", .terminal "INT",
        .literal "]"],
      some [.literal "push", .literal "$", .terminal "WORD"],
      some [.literal "push", .terminal "INT"],
      some [.literal "version", .terminal "FLOAT", .terminal "WORD"],
      some [.literal "version", .terminal "FLOAT"]] := by
  rfl

theorem phrasesOf_node : script.phrasesOf "node" =
    [some [.terminal "WORD", .literal "\x7b", .rule "knobs", .literal "\x7d", .rule "tcl_command"],
      some [.terminal "WORD", .literal "\x7b", .rule "knobs", .literal "\x7d"],
      some [.terminal "WORD", .literal "\x7b", .literal "\x7d", .rule "tcl_command"],
      some [.terminal "WORD", .literal "\x7b", .literal "\x7d"]] := by
  rfl

theorem phrasesOf_statement : script.phrasesOf "statement" =
    [some [.alternation (.rule "node") (.rule "tcl_command")]] := by
  rfl

theorem phrasesOf_main : script.phrasesOf "main" = [some [.oneOrMore (.rule "statement")]] := by
  rfl

end RuleTable

namespace Descent

theorem alternation_one (p q : Token → Bool) :
    alternation (one p) (one q) = one fun t => p t || q t := by
  funext ts
  match ts with
  | [] => rfl
  | t :: rest => cases hp : p t <;> simp [alternation, one, hp]

theorem sequence_one (p : Token → Bool) : sequence [one p] = one p := by
  funext ts
  match ts with
  | [] => rfl
  | t :: rest => cases hp : p t <;> simp [sequence, all, one, hp, Tree.flatten]

/-- A rule without a builder that has one alternative reads that. -/
theorem rule_single {builders : BuilderTable} {name : String} (h : builders.get? name = none)
    (f : Descent) : rule builders name [f] = f := by
  funext ts
  rw [rule_eq_findSome? h]
  cases hf : f ts <;> simp [hf]

end Descent

/-- A rule without a builder that has one alternative reads the phrases of that. -/
theorem RuleTable.descend_single {table : RuleTable} {builders : BuilderTable} {name : String}
    {phrases : List Phrase} (h : table.phrasesOf name = [some phrases])
    (hb : builders.get? name = none) (tokens : TokenTable) (limit budget : Nat) :
    table.descend tokens builders limit (budget + 1) name = .sequence (phrases.map
      (·.descend tokens limit (table.descend tokens builders limit budget))) := by
  rw [descend_succ, h, List.map_singleton, Descent.rule_single hb]
  rfl

namespace Script

open RuleTable (descend descend_succ descend_single)

/-- Reads a rule of scripts. -/
abbrev read (limit budget : Nat) (name : String) : Descent :=
  RuleTable.script.descend TokenTable.script .standard limit budget name

variable (limit b : Nat)

theorem read_scalar : read limit (b + 1) "scalar" = .one isScalar := by
  rw [read, descend_single RuleTable.phrasesOf_scalar (by decide)]
  simp only [List.map_singleton, Phrase.descend, Descent.alternation_one, Descent.sequence_one]
  rfl

theorem read_number : read limit (b + 1) "number" = .one isNumber := by
  rw [read, descend_single RuleTable.phrasesOf_number (by decide)]
  simp only [List.map_singleton, Phrase.descend, Descent.alternation_one, Descent.sequence_one]
  rfl

theorem read_keyframe : read limit (b + 2) "keyframe" =
    .sequence [.one isFrame, .one isNumber] := by
  rw [read, descend_single RuleTable.phrasesOf_keyframe (by decide), ← read_number limit b]
  rfl

theorem read_curve : read limit (b + 3) "curve" = .sequence [.one (isText "\x7b"),
    .one (isText "curve"), .oneOrMore limit (read limit (b + 2) "keyframe"),
    .one (isText "\x7d")] := by
  rw [read, descend_single RuleTable.phrasesOf_curve (by decide)]
  rfl

theorem read_animatedValue : read limit (b + 4) "animated_value" =
    .rule .standard "animated_value" [
      .sequence [.one (isText "\x7b"), read limit (b + 3) "curve", .one (isText "\x7d")],
      .sequence [read limit (b + 3) "curve"]] := by
  rw [read, descend_succ, RuleTable.phrasesOf_animatedValue]
  rfl

theorem read_multiValue : read limit (b + 2) "multi_value" = .rule .standard "multi_value" [
    .sequence [.one (isText "\x7b"), .oneOrMore limit (.one isScalar), .one (isText "\x7d")],
    .sequence [.one (isText "("), .oneOrMore limit (.one isScalar), .one (isText ")")]] := by
  rw [read, descend_succ, RuleTable.phrasesOf_multiValue, ← read_scalar limit b]
  rfl

theorem read_knobValue (ts : List Token) : read limit (b + 5) "knob_value" ts =
    [Descent.sequence [read limit (b + 4) "animated_value"],
      .sequence [read limit (b + 4) "multi_value"],
      .sequence [.one isScalar]].findSome? (· ts) := by
  rw [read, descend_succ, RuleTable.phrasesOf_knobValue, Descent.rule_eq_findSome? (by decide),
    ← read_scalar limit (b + 3)]
  rfl

theorem read_knob : read limit (b + 6) "knob" = .rule .standard "knob" [
    .sequence [.one isWord, read limit (b + 5) "knob_value"]] := by
  rw [read, descend_succ, RuleTable.phrasesOf_knob]
  rfl

theorem read_knobs : read limit (b + 7) "knobs" =
    .sequence [.oneOrMore limit (read limit (b + 6) "knob")] := by
  rw [read, descend_single RuleTable.phrasesOf_knobs (by decide)]
  rfl

theorem read_command (ts : List Token) : read limit (b + 1) "tcl_command" ts =
    commandForms.findSome? fun form => Descent.sequence (form.map .one) ts := by
  rw [read, descend_succ, RuleTable.phrasesOf_command, Descent.rule_eq_findSome? (by decide)]
  rfl

theorem read_node : read limit (b + 8) "node" = .rule .standard "node" [
    .sequence [.one isWord, .one (isText "\x7b"), read limit (b + 7) "knobs", .one (isText "\x7d"),
      read limit (b + 7) "tcl_command"],
    .sequence [.one isWord, .one (isText "\x7b"), read limit (b + 7) "knobs", .one (isText "\x7d")],
    .sequence [.one isWord, .one (isText "\x7b"), .one (isText "\x7d"),
      read limit (b + 7) "tcl_command"],
    .sequence [.one isWord, .one (isText "\x7b"), .one (isText "\x7d")]] := by
  rw [read, descend_succ, RuleTable.phrasesOf_node]
  rfl

theorem read_statement : read limit (b + 9) "statement" =
    .sequence [.alternation (read limit (b + 8) "node") (read limit (b + 8) "tcl_command")] := by
  rw [read, descend_single RuleTable.phrasesOf_statement (by decide)]
  rfl

theorem read_main : read limit (b + 10) "main" =
    .sequence [.oneOrMore limit (read limit (b + 9) "statement")] := by
  rw [read, descend_single RuleTable.phrasesOf_main (by decide)]
  rfl

end Script

end NodeScript
