import NodeScript.Json.Codec
import NodeScript.Script.Setup

/-!
# The command line

What the program does with its arguments: it sets up a parser, parses one script and shows its
nodes. What it prints is a value, so that it can be followed over files held in memory.
-/

namespace NodeScript.CommandLine

/-- How the nodes of a script are shown. -/
inductive View where
  | summary
  | json
  | script
  | tree
deriving DecidableEq

/-- What the arguments ask for. -/
structure Options where
  view : View
  roto : Bool
  config : Option String
  input : Option String

/-- Why arguments cannot be followed. -/
inductive UsageError where
  | help
  | missingConfigFile
  | unknownFlag (flag : String)
  | secondScript
  | noScript

def usage : String :=
  "Usage: nkgraph [-v|-vv] [--json|--write|--tree] [--roto] [--config <file>] <script|->"

def UsageError.message : UsageError → String
  | .help => usage
  | .missingConfigFile => "--config needs a file"
  | .unknownFlag flag => "unknown flag " ++ flag ++ "\n" ++ usage
  | .secondScript => "only one script can be given\n" ++ usage
  | .noScript => usage

/-- Whether an argument can only be a flag. -/
def isFlag (arg : String) : Bool :=
  "--".toList.isPrefixOf arg.toList

/-- Follows arguments from the left, and stops at the first that makes no sense. The flags for a log
are accepted; there is none. -/
def readArgs (o : Options) : List String → Except UsageError Options
  | [] => .ok o
  | "-v" :: rest => readArgs o rest
  | "-vv" :: rest => readArgs o rest
  | "--json" :: rest => readArgs { o with view := .json } rest
  | "--write" :: rest => readArgs { o with view := .script } rest
  | "--tree" :: rest => readArgs { o with view := .tree } rest
  | "--roto" :: rest => readArgs { o with roto := true } rest
  | "--config" :: path :: rest => readArgs { o with config := some path } rest
  | "--config" :: [] => .error .missingConfigFile
  | "-h" :: _ => .error .help
  | "--help" :: _ => .error .help
  | arg :: rest =>
    if isFlag arg then .error (.unknownFlag arg)
    else if o.input.isSome then .error .secondScript
    else readArgs { o with input := some arg } rest

/-- What the program prints, and the code it ends with. -/
structure Result where
  code : Nat
  stdout : String
  stderr : String
deriving DecidableEq

/-- Why the program ends before it has a script. -/
inductive Failure where
  | config (e : ConfigError)
  | assembly (e : AssemblyError)
  | input (e : FileError)

def inspectConfig : ConfigError → String
  | .unreadable cause => Inspect.tagged "Io" cause.inspect
  | .malformed => Inspect.tagged "Yaml" (Text.quoted "")
  | .invalid problem => Inspect.tagged "Config" (Text.quoted problem.words)
  | .badPattern => Inspect.tagged "Glob" (Text.quoted "")

def inspectTokens : TokenTableError → String
  | .unreadable cause => Inspect.tagged "IoError" cause.inspect
  | .malformedRow line => Inspect.record "MalformedRow" [("line", toString line)]
  | .invalidPattern name => Inspect.record "InvalidPattern" [("name", Text.quoted name)]

def inspectGrammar : GrammarError → String
  | .unreadable path cause =>
    Inspect.record "Io" [("path", Text.quoted path), ("source", cause.inspect)]
  | .missingSeparator line text =>
    Inspect.record "MissingSeparator" [("line", toString line), ("text", Text.quoted text)]
  | .emptyRuleName line => Inspect.record "EmptyRuleName" [("line", toString line)]
  | .danglingOperator rule => Inspect.record "DanglingOperator" [("rule", Text.quoted rule)]
  | .unknownRule rule => Inspect.tagged "UnknownRule" (Text.quoted rule)

def Failure.inspect : Failure → String
  | .config e => inspectConfig e
  | .assembly (.tokens e) => Inspect.tagged "Tokens" (inspectTokens e)
  | .assembly (.grammar e) => Inspect.tagged "Grammar" (inspectGrammar e)
  | .input e => e.inspect

/-- A node in one line: its class, its name, how many knobs it has and its binding. -/
def summaryLine (n : Node) : String :=
  n.className ++ " " ++ n.name?.getD "-" ++ " [" ++ toString n.attributes.length ++ " knobs]" ++
    (match n.binding with
    | some b => "  (" ++ b.render ++ ")"
    | none => "") ++ "\n"

def display (view : View) (p : ScriptParser) (script : String) : Except ScriptError String :=
  match view with
  | .tree => (p.resolve script).map Tree.render
  | .json => (p.parse script).map fun nodes => (Node.listToJson nodes).pretty ++ "\n"
  | .script => (p.parse script).map Node.renderScript
  | .summary => (p.parse script).map fun nodes => String.join (nodes.map summaryLine)

/-- What the program is run with. -/
structure Environment (m : Type → Type) where
  files : FileSystem m
  stdin : m String
  /-- The grammars that the environment names. -/
  plugins : List String

variable {m : Type → Type} [Monad m]

/-- The configuration that the options ask for. -/
def configOf (env : Environment m) (o : Options) : m (Except ConfigError ParserConfig) := do
  let config ← match o.config with
    | some path => ParserConfig.ofFile env.files path
    | none => pure (.ok .default)
  return config.map fun c => { c with roto := c.roto || o.roto }

/-- The text of the script; a hyphen stands for the standard input. -/
def readScript (env : Environment m) (input : String) : m (Except FileError String) := do
  if input == "-" then return .ok (← env.stdin) else env.files.read input

/-- The parser and the script that the options ask for, in this order. -/
def prepare (env : Environment m) (o : Options) (input : String) :
    m (Except Failure (ScriptParser × String)) := do
  match ← configOf env o with
  | .error e => return .error (.config e)
  | .ok c =>
    match ← (ParserSetup.ofConfig c env.plugins).assemble env.files with
    | .error e => return .error (.assembly e)
    | .ok p =>
      match ← readScript env input with
      | .error e => return .error (.input e)
      | .ok script => return .ok (p, script)

def run (env : Environment m) (args : List String) : m Result := do
  let refused (e : UsageError) : Result := ⟨2, "", e.message ++ "\n"⟩
  match readArgs ⟨.summary, false, none, none⟩ args with
  | .error e => return refused e
  | .ok o =>
    match o.input with
    | none => return refused .noScript
    | some input =>
      match ← prepare env o input with
      | .error e => return ⟨1, "", "Error: " ++ e.inspect ++ "\n"⟩
      | .ok (p, script) =>
        match display o.view p script with
        | .ok text => return ⟨0, text, ""⟩
        | .error e => return ⟨1, "", e.message ++ "\n"⟩

end NodeScript.CommandLine
