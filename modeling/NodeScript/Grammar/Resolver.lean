import NodeScript.Grammar.Diagnostics
import NodeScript.Grammar.Graph
import NodeScript.Tree.Builder

/-!
# Resolving tokens against a grammar

A node of a graph is matched at a position among the tokens; success gives a tree and the position
after it. Choices are ordered and never taken back once they have succeeded, a repetition takes all
it can, and a failed choice leaves no trace but in the diagnostics.

Matching ends because the rules in one another are bounded by a nesting budget, the other nodes
only lead down to rules in boundedly many steps, and a repetition stops when a round takes no token.
-/

namespace NodeScript

/-- What matching gives: a tree and the position after it, or a failure. -/
abbrev Outcome := Except Failure (Tree × Nat)

/-- Matching something from a position on, which adds to the diagnostics. -/
abbrev Match := Nat → Diagnostics → Outcome × Diagnostics

/-- The tokens to be matched, and the builders attached to rules. -/
structure Input where
  tokens : Array Token
  builders : BuilderTable

namespace Input

def previewLimit : Nat := 3

/-- A preview of the tokens from a position on. -/
def previewAt (input : Input) (position : Nat) : String :=
  Token.preview (input.tokens.extract position (position + previewLimit + 1)).toList previewLimit

/-- The failure to find `expected` at a position. -/
def failure (input : Input) (expected : String) (position : Nat) : Failure :=
  ⟨expected, position, input.tokens[position]?.map Token.text, input.previewAt position⟩

end Input

namespace Match

/-- Always fails for want of `expected`. -/
def fail (input : Input) (expected : String) : Match := fun position d =>
  (.error (input.failure expected position), d)

/-- Matches one token that passes a test. -/
def one (input : Input) (expected : String) (test : Token → Bool) : Match := fun position d =>
  match input.tokens[position]? with
  | some t =>
    if test t then (.ok (.token t, position + 1), d)
    else (.error (input.failure expected position), d)
  | none => (.error (input.failure expected position), d)

/-- Matches all of a list, one after the other; `done` holds the trees so far, latest first. -/
def sequence (done : List Tree) : List Match → Match
  | [], position, d => (.ok ((Tree.list done.reverse).flatten, position), d)
  | item :: rest, position, d =>
    match item position d with
    | (.ok (t, next), d) => sequence (t :: done) rest next d
    | (.error f, d) => (.error f, d)

/-- Matches the left, and the right when the left fails. -/
def alternation (left right : Match) : Match := fun position d =>
  match left position d with
  | (.ok success, d) => (.ok success, d)
  | (.error f, d) => right position (d.record f)

/-- Matches as often as it goes, at most `rounds` times more; `done` holds the trees so far, latest
first. A round that takes no token is the last. -/
def further (item : Match) : (rounds : Nat) → (done : List Tree) → Match
  | 0, done, position, d => (.ok ((Tree.list done.reverse).flatten, position), d)
  | rounds + 1, done, position, d =>
    match item position d with
    | (.ok (t, next), d) =>
      if next = position then (.ok ((Tree.list (t :: done).reverse).flatten, next), d)
      else further item rounds (t :: done) next d
    | (.error f, d) => (.ok ((Tree.list done.reverse).flatten, position), d.record f)

/-- Matches once or more. A round that takes a token leaves fewer, so `rounds` is their count. -/
def oneOrMore (rounds : Nat) (item : Match) : Match := fun position d =>
  match item position d with
  | (.ok (t, next), d) =>
    if next = position then (.ok (t.flatten, next), d)
    else further item rounds [t] next d
  | (.error f, d) => (.error f, d)

/-- Matches a rule: the first alternative that matches and whose tree the rule's builder accepts. -/
def rule (input : Input) (name : String) : List Match → Match
  | [], position, d => (.error (input.failure name position), d)
  | alternative :: rest, position, d =>
    match alternative position d with
    | (.error f, d) => rule input name rest position (d.record f)
    | (.ok (t, next), d) =>
      match input.builders.build name t with
      | .ok built => (.ok (built, next), d)
      | .error e =>
        let f := input.failure (name ++ " (" ++ e.message ++ ")") position
        rule input name rest position (d.record f)

end Match

namespace Graph

/-- Matches a node, where `enter` matches a rule of the given name and alternatives. Between rules
a graph only leads down, so `limit` is the number of its nodes. -/
def walk (g : Graph) (input : Input) (enter : String → List Nat → Match) :
    (limit : Nat) → (id : Nat) → Match
  | 0, _ => Match.fail input ""
  | limit + 1, id =>
    match g.nodes[id]? with
    | some (.composite name alternatives) => enter name alternatives
    | some (.sequence items) => Match.sequence [] (items.map (walk g input enter limit))
    | some (.alternation left right) =>
      Match.alternation (walk g input enter limit left) (walk g input enter limit right)
    | some (.repetition item) =>
      Match.oneOrMore input.tokens.size (walk g input enter limit item)
    | some (.literal text) => Match.one input (Text.quoted text) (·.text == text)
    | some (.terminal name row) =>
      Match.one input name fun t => row.any (·.accepts t.text)
    | none => Match.fail input ""

/-- How deep rules may stand in one another. -/
def nestingLimit : Nat := 100

/-- Matches a node with rules at most `budget` deep in one another. -/
def resolveWithin (g : Graph) (input : Input) : (budget : Nat) → (id : Nat) → Match
  | 0 =>
    g.walk input (fun name _ => Match.fail input (name ++ " (recursion limit)")) g.nodes.size
  | budget + 1 =>
    g.walk input
      (fun name alternatives =>
        Match.rule input name (alternatives.map (resolveWithin g input budget)))
      g.nodes.size

/-- Matches a node. -/
def resolve (g : Graph) (input : Input) (id : Nat) : Match :=
  g.resolveWithin input nestingLimit id

end Graph

end NodeScript
