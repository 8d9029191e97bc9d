import NodeScript.Grammar.RuleTable
import NodeScript.Token.Table

/-!
# Grammar graphs

A rule table is compiled into an array of nodes that refer to one another by their positions. Each
rule has one node, and so has each literal and each terminal, however often it is used; a rule's
node is there before its alternatives are compiled, so that rules can refer back to themselves.
-/

namespace NodeScript

inductive GraphNode where
  /-- A rule with the nodes of its alternatives. -/
  | composite (name : String) (alternatives : List Nat)
  | sequence (items : List Nat)
  | alternation (left right : Nat)
  /-- The node once or more. -/
  | repetition (item : Nat)
  | literal (text : String)
  /-- A token whose text the row accepts; without a row none does. -/
  | terminal (name : String) (row : Option TokenRow)

structure Graph where
  nodes : Array GraphNode
  /-- The rules with their nodes, in the order they were compiled. -/
  rules : List (String × Nat)

namespace Graph

def rule? (g : Graph) (name : String) : Option Nat :=
  g.rules.lookup name

/-- How far a table has been compiled. -/
structure Draft where
  nodes : Array GraphNode
  rules : List (String × Nat)
  terminals : List (String × Nat)
  literals : List (String × Nat)

namespace Draft

def empty : Draft :=
  ⟨#[], [], [], []⟩

/-- The draft with one more node, and its position. -/
def push (d : Draft) (node : GraphNode) : Nat × Draft :=
  (d.nodes.size, { d with nodes := d.nodes.push node })

/-- The node of a terminal, made on first use. -/
def terminal (tokens : TokenTable) (name : String) (d : Draft) : Nat × Draft :=
  match d.terminals.lookup name with
  | some id => (id, d)
  | none =>
    let (id, d) := d.push (.terminal name (tokens.row? name))
    (id, { d with terminals := (name, id) :: d.terminals })

/-- The node of a literal, made on first use. -/
def literal (text : String) (d : Draft) : Nat × Draft :=
  match d.literals.lookup text with
  | some id => (id, d)
  | none =>
    let (id, d) := d.push (.literal text)
    (id, { d with literals := (text, id) :: d.literals })

/-- The draft with a rule's node in it, still without alternatives. -/
def openRule (name : String) (d : Draft) : Nat × Draft :=
  let (id, d) := d.push (.composite name [])
  (id, { d with rules := d.rules ++ [(name, id)] })

/-- The draft with the alternatives of a rule's node filled in. -/
def closeRule (name : String) (id : Nat) (alternatives : List Nat) (d : Draft) : Draft :=
  { d with nodes := d.nodes.setIfInBounds id (.composite name alternatives) }

end Draft

/-- A compilation step from a draft to a result and the next draft. -/
abbrev Compile (α : Type) := Draft → Except GrammarError (α × Draft)

/-- The node of an operand, where `rule` gives the node of a rule of the table. -/
def compileOperand (table : RuleTable) (tokens : TokenTable) (rule : String → Compile Nat) :
    Part → Compile Nat
  | .literal text, d => .ok (d.literal text)
  | .symbol name, d => if table.contains name then rule name d else .ok (d.terminal tokens name)
  | _, d => .ok (0, d)

/-- Compiles the parts of an alternative of the rule `owner`. The items so far stand in `items`,
latest first, and `pending` tells whether an alternation waits for its right operand. `+` wraps
the latest item, and `|` joins it with the next operand. -/
def compileParts (table : RuleTable) (tokens : TokenTable) (rule : String → Compile Nat)
    (owner : String) (items : List Nat) (pending : Bool) : Alternative → Compile Nat
  | [], d =>
    if pending then .error (.danglingOperator owner)
    else .ok (d.push (.sequence items.reverse))
  | .oneOrMore :: rest, d =>
    match items with
    | item :: items =>
      if pending then .error (.danglingOperator owner)
      else
        let (id, d) := d.push (.repetition item)
        compileParts table tokens rule owner (id :: items) false rest d
    | [] => .error (.danglingOperator owner)
  | .or :: rest, d =>
    if pending || items.isEmpty then .error (.danglingOperator owner)
    else compileParts table tokens rule owner items true rest d
  | operand :: rest, d =>
    match compileOperand table tokens rule operand d with
    | .error e => .error e
    | .ok (id, d) =>
      match pending, items with
      | true, left :: items =>
        let (id, d) := d.push (.alternation left id)
        compileParts table tokens rule owner (id :: items) false rest d
      | _, items => compileParts table tokens rule owner (id :: items) false rest d

/-- Compiles the alternatives of the rule `owner` in order. -/
def compileAlternatives (table : RuleTable) (tokens : TokenTable) (rule : String → Compile Nat)
    (owner : String) : List Alternative → Compile (List Nat)
  | [], d => .ok ([], d)
  | parts :: rest, d =>
    match compileParts table tokens rule owner [] false parts d with
    | .error e => .error e
    | .ok (id, d) =>
      match compileAlternatives table tokens rule owner rest d with
      | .error e => .error e
      | .ok (ids, d) => .ok (id :: ids, d)

/-- The node of a rule, compiled on first use. Every level of nesting opens a rule that was not
open before, so `limit` is the number of rules. -/
def compileRule (table : RuleTable) (tokens : TokenTable) : (limit : Nat) → String → Compile Nat
  | limit, name, d =>
    match d.rules.lookup name with
    | some id => .ok (id, d)
    | none =>
      let (id, d) := d.openRule name
      match limit with
      | 0 => .ok (id, d)
      | limit + 1 =>
        match compileAlternatives table tokens (compileRule table tokens limit) name
            ((table.get? name).getD []) d with
        | .error e => .error e
        | .ok (ids, d) => .ok (id, d.closeRule name id ids)

def compileRules (table : RuleTable) (tokens : TokenTable) (limit : Nat) :
    List String → Draft → Except GrammarError Draft
  | [], d => .ok d
  | name :: rest, d =>
    match compileRule table tokens limit name d with
    | .error e => .error e
    | .ok (_, d) => compileRules table tokens limit rest d

/-- The graph of a rule table, whose terminals are rows of a token table. -/
def compile (table : RuleTable) (tokens : TokenTable) : Except GrammarError Graph :=
  match compileRules table tokens table.entries.length table.keys .empty with
  | .error e => .error e
  | .ok d => .ok ⟨d.nodes, d.rules⟩

end Graph

end NodeScript
