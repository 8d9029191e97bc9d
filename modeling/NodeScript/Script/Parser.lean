import NodeScript.Grammar.Resolver
import NodeScript.Grammar.Shipped
import NodeScript.Token.Shipped

/-!
# Parsing scripts

A parser holds a token table, a compiled grammar, the builders of its rules and the rule that a
script as a whole must match. It turns the text of a script into a result tree, and that into nodes.
-/

namespace NodeScript

/-- A script that the root rule does not match to its end. -/
structure ParseError where
  /-- The end of what was matched, or the furthest failure when nothing was. -/
  position : Nat
  /-- How many tokens there are. -/
  total : Nat
  /-- A preview of the tokens that were not used. -/
  unconsumed : String
  trace : List Failure
deriving DecidableEq

namespace ParseError

/-- How many tokens were not used. -/
def remaining (e : ParseError) : Nat :=
  e.total - e.position

/-- The error in words, with a line for each failure. -/
def message (e : ParseError) : String :=
  "parse stopped at token " ++ toString e.position ++ " of " ++ toString e.total ++ " near `" ++
    e.unconsumed ++ "`\n" ++ Diagnostics.renderTrace e.trace

end ParseError

/-- Why a text is no script. -/
inductive ScriptError where
  | lex (e : LexError)
  | parse (e : ParseError)
deriving DecidableEq

def ScriptError.message : ScriptError → String
  | .lex e => e.message
  | .parse e => e.message

/-- Why a parser cannot be made from its parts. -/
inductive AssemblyError where
  | tokens (e : TokenTableError)
  | grammar (e : GrammarError)

structure ScriptParser where
  tokens : TokenTable
  graph : Graph
  builders : BuilderTable
  /-- The node of the rule that a script must match. -/
  root : Nat

namespace ScriptParser

/-- The parser of a token table and a rule table. -/
def ofTables (tokens : TokenTable) (rules : RuleTable) (root : String)
    (builders : BuilderTable) : Except GrammarError ScriptParser :=
  match Graph.compile rules tokens with
  | .error e => .error e
  | .ok graph =>
    match graph.rule? root with
    | some id => .ok ⟨tokens, graph, builders, id⟩
    | none => .error (.unknownRule root)

/-- The rules of grammar texts laid over a table, one after the other. -/
def layerTexts (rules : RuleTable) : List String → Except GrammarError RuleTable
  | [] => .ok rules
  | text :: rest =>
    match RuleTable.read text with
    | .error e => .error e
    | .ok layer => layerTexts (rules.layer layer) rest

/-- The parser of the text of a token table and of grammars laid over one another. -/
def ofTexts (tokens : String) (grammars : List String) (root : String)
    (builders : BuilderTable) : Except AssemblyError ScriptParser :=
  match TokenTable.read tokens with
  | .error e => .error (.tokens e)
  | .ok tokens =>
    match layerTexts OrderedTable.empty grammars with
    | .error e => .error (.grammar e)
    | .ok rules => (ofTables tokens rules root builders).mapError .grammar

/-- The parser of the shipped tokens and grammar. -/
def shipped : Except AssemblyError ScriptParser :=
  ofTexts TokenTable.shippedText [RuleTable.scriptText] RuleTable.rootRule BuilderTable.standard

def tokenize (p : ScriptParser) (script : String) : Except LexError (List Token) :=
  (p.tokens.tokenize script).map Token.significant

/-- The result tree of tokens, all of which must be used, with rules at most `limit` deep in one
another. No tokens give an empty list. -/
def resolveTokensWithin (p : ScriptParser) (limit : Nat) (tokens : Array Token) :
    Except ParseError Tree :=
  if tokens.isEmpty then .ok (.list [])
  else
    let input : Input := ⟨tokens, p.builders⟩
    let stop (position : Nat) (d : Diagnostics) : Except ParseError Tree :=
      .error ⟨position, tokens.size, input.previewAt position, d.trace⟩
    match p.graph.resolveWithin input limit p.root 0 .empty with
    | (.ok (t, next), d) => if next = tokens.size then .ok t else stop next d
    | (.error f, d) =>
      let d := d.record f
      stop d.furthest d

/-- The result tree of tokens, all of which must be used. -/
def resolveTokens (p : ScriptParser) (tokens : Array Token) : Except ParseError Tree :=
  p.resolveTokensWithin Graph.nestingLimit tokens

def resolve (p : ScriptParser) (script : String) : Except ScriptError Tree :=
  match p.tokenize script with
  | .error e => .error (.lex e)
  | .ok tokens => (p.resolveTokens tokens.toArray).mapError .parse

/-- The nodes of a script. Stack commands that belong to no node are skipped. -/
def parse (p : ScriptParser) (script : String) : Except ScriptError (List Node) :=
  (p.resolve script).map Tree.nodes

end ScriptParser

end NodeScript
