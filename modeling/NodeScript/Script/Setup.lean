import NodeScript.Config.Basic
import NodeScript.Script.Parser

/-!
# Setting up parsers

The sources that a parser is made of, which can be texts or files. They are read in a fixed order:
the token table, then the grammars from the lowest to the highest.
-/

namespace NodeScript

/-- Where the text of a token table or a grammar comes from. -/
inductive Source where
  | text (text : String)
  | file (path : String)

/-- The sources of a parser. -/
structure ParserSetup where
  tokens : Source
  /-- The grammars, the lowest first. -/
  grammars : List Source
  root : String
  builders : BuilderTable

namespace ParserSetup

/-- The sources that a configuration names; `plugins` are the grammars that the environment
names. -/
def ofConfig (c : ParserConfig) (plugins : List String) : ParserSetup :=
  { tokens := match c.tokens with
      | some path => .file path
      | none => .text TokenTable.shippedText
    grammars :=
      (if c.builtinGrammar then [.text RuleTable.scriptText] else []) ++
      (if c.roto then [.text RuleTable.rotoText] else []) ++
      c.grammars.map .file ++
      (if c.pluginsFromEnv then plugins.map .file else [])
    root := c.root
    builders := .standard }

variable {m : Type → Type} [Monad m]

def read (fs : FileSystem m) : Source → m (Except FileError String)
  | .text text => return .ok text
  | .file path => fs.read path

def readTokens (fs : FileSystem m) (s : Source) : m (Except TokenTableError TokenTable) := do
  match ← read fs s with
  | .ok text => return TokenTable.read text
  | .error e => return .error (.unreadable e)

def readGrammar (fs : FileSystem m) (s : Source) : m (Except GrammarError RuleTable) := do
  match ← read fs s with
  | .ok text => return RuleTable.read text
  | .error e =>
    match s with
    | .file path => return .error (.unreadable path e)
    | .text _ => return .error (.unreadable "" e)

/-- The grammars of sources laid over a table, one after the other. -/
def layer (fs : FileSystem m) (rules : RuleTable) : List Source → m (Except GrammarError RuleTable)
  | [] => return .ok rules
  | s :: rest => do
    match ← readGrammar fs s with
    | .error e => return .error e
    | .ok other => layer fs (rules.layer other) rest

def assemble (fs : FileSystem m) (s : ParserSetup) : m (Except AssemblyError ScriptParser) := do
  match ← readTokens fs s.tokens with
  | .error e => return .error (.tokens e)
  | .ok tokens =>
    match ← layer fs OrderedTable.empty s.grammars with
    | .error e => return .error (.grammar e)
    | .ok rules => return (ScriptParser.ofTables tokens rules s.root s.builders).mapError .grammar

end ParserSetup

end NodeScript
