import NodeScript.Grammar.Resolver

/-!
# Reading tokens by the rule table

What a grammar means, said of the rule table itself: no graph is made, rules and token rows are
looked up by name at every use, and failures leave no record. Compiled graphs are compared with
this reading.
-/

namespace NodeScript

/-- What an operand and the operators after it make of an alternative's parts. -/
inductive Phrase where
  | rule (name : String)
  | terminal (name : String)
  | literal (text : String)
  | alternation (left right : Phrase)
  | oneOrMore (body : Phrase)
deriving DecidableEq

/-- The rules that a phrase refers to. -/
def Phrase.rules : Phrase → List String
  | .rule name => [name]
  | .terminal _ => []
  | .literal _ => []
  | .alternation left right => left.rules ++ right.rules
  | .oneOrMore body => body.rules

namespace RuleTable

/-- The phrase of a symbol: a rule where the table has one of that name, else a terminal. -/
def symbolPhrase (table : RuleTable) (name : String) : Phrase :=
  if table.contains name then .rule name else .terminal name

/-- The phrases so far, latest first, with one more operand. A pending `|` joins it with the latest
phrase. -/
def attach (phrases : List Phrase) (pending : Bool) (operand : Phrase) : List Phrase :=
  match pending, phrases with
  | true, left :: before => .alternation left operand :: before
  | _, phrases => operand :: phrases

/-- The phrases of an alternative, read from the left: `+` wraps the latest phrase, and `|` joins it
with the next operand. There are none when an operator lacks an operand. -/
def phrasesFrom? (table : RuleTable) (phrases : List Phrase) (pending : Bool) :
    Alternative → Option (List Phrase)
  | [] => if pending then none else some phrases.reverse
  | .oneOrMore :: rest =>
    match phrases with
    | latest :: before =>
      if pending then none else phrasesFrom? table (.oneOrMore latest :: before) false rest
    | [] => none
  | .or :: rest =>
    if pending || phrases.isEmpty then none else phrasesFrom? table phrases true rest
  | .symbol name :: rest =>
    phrasesFrom? table (attach phrases pending (table.symbolPhrase name)) false rest
  | .literal text :: rest =>
    phrasesFrom? table (attach phrases pending (.literal text)) false rest

/-- The phrases of an alternative. -/
def phrases? (table : RuleTable) (parts : Alternative) : Option (List Phrase) :=
  phrasesFrom? table [] false parts

/-- The phrases of the alternatives of a rule. -/
def phrasesOf (table : RuleTable) (name : String) : List (Option (List Phrase)) :=
  ((table.get? name).getD []).map table.phrases?

end RuleTable

/-- Reading something from a position on. -/
abbrev Reading := Nat → Outcome

namespace Reading

/-- Always fails for want of `expected`. -/
def fail (input : Input) (expected : String) : Reading := fun position =>
  .error (input.failure expected position)

/-- Reads one token that passes a test. -/
def one (input : Input) (expected : String) (test : Token → Bool) : Reading := fun position =>
  match input.tokens[position]? with
  | some t => if test t then .ok (.token t, position + 1) else fail input expected position
  | none => fail input expected position

/-- The trees of all of a list, read one after the other. -/
def all : List Reading → Nat → Except Failure (List Tree × Nat)
  | [], position => .ok ([], position)
  | item :: rest, position =>
    match item position with
    | .error f => .error f
    | .ok (t, next) =>
      match all rest next with
      | .error f => .error f
      | .ok (ts, stop) => .ok (t :: ts, stop)

/-- Reads all of a list, one after the other. -/
def sequence (items : List Reading) : Reading := fun position =>
  (all items position).map fun (ts, stop) => ((Tree.list ts).flatten, stop)

/-- Reads the left, and the right when the left fails. -/
def alternation (left right : Reading) : Reading := fun position =>
  match left position with
  | .ok success => .ok success
  | .error _ => right position

/-- The trees of as many rounds as succeed, up to a limit. A round that takes no token is the
last. -/
def rounds (item : Reading) : (limit : Nat) → Nat → List Tree × Nat
  | 0, position => ([], position)
  | limit + 1, position =>
    match item position with
    | .error _ => ([], position)
    | .ok (t, next) =>
      if next = position then ([t], next)
      else
        let (ts, stop) := rounds item limit next
        (t :: ts, stop)

/-- Reads once or more. After the first round, every round but the last takes a token, so `limit`
is their count. -/
def oneOrMore (limit : Nat) (item : Reading) : Reading := fun position =>
  match item position with
  | .error f => .error f
  | .ok (t, next) =>
    let (ts, stop) := if next = position then ([], next) else rounds item limit next
    .ok ((Tree.list (t :: ts)).flatten, stop)

/-- Reads the first alternative that succeeds and whose tree the rule's builder accepts. -/
def rule (input : Input) (name : String) : List Reading → Reading
  | [], position => fail input name position
  | alternative :: rest, position =>
    match alternative position with
    | .error _ => rule input name rest position
    | .ok (t, next) =>
      match input.builders.build name t with
      | .ok built => .ok (built, next)
      | .error _ => rule input name rest position

end Reading

/-- Reads a phrase, where `enter` reads the rule of a name. A terminal is the first token row of its
name, tested on the whole text of a token. -/
def Phrase.read (tokens : TokenTable) (input : Input) (enter : String → Reading) :
    Phrase → Reading
  | .rule name => enter name
  | .terminal name => .one input name fun t => (tokens.row? name).any (·.accepts t.text)
  | .literal text => .one input (Text.quoted text) (·.text == text)
  | .alternation left right =>
    .alternation (left.read tokens input enter) (right.read tokens input enter)
  | .oneOrMore body => .oneOrMore input.tokens.size (body.read tokens input enter)

namespace RuleTable

/-- Reads an alternative; one with a dangling operator never succeeds. -/
def readAlternative (table : RuleTable) (tokens : TokenTable) (input : Input)
    (enter : String → Reading) (parts : Alternative) : Reading :=
  match table.phrases? parts with
  | some phrases => .sequence (phrases.map (·.read tokens input enter))
  | none => .fail input ""

/-- Reads a rule of the table with rules at most `budget` deep in one another. -/
def evaluate (table : RuleTable) (tokens : TokenTable) (input : Input) :
    (budget : Nat) → (name : String) → Reading
  | 0, name => .fail input (name ++ " (recursion limit)")
  | budget + 1, name =>
    .rule input name (((table.get? name).getD []).map
      (table.readAlternative tokens input (evaluate table tokens input budget)))

end RuleTable

end NodeScript
