import NodeScript.Yaml.Document
import NodeScript.Files.Glob
import NodeScript.Grammar.Shipped

/-!
# Configuration of a parser

A YAML mapping names the root rule, the token table and the grammars of a parser. Paths are taken
from the directory of the file, and grammars are given by patterns of paths.
-/

namespace NodeScript

/-- What a parser is to be made of. -/
structure ParserConfig where
  /-- The rule that a script must match. -/
  root : String
  /-- The token table, the shipped one when none is named. -/
  tokens : Option String
  /-- Grammars to be laid over one another in this order. -/
  grammars : List String
  /-- Whether the shipped grammar is the lowest. -/
  builtinGrammar : Bool
  /-- Whether the extension by nested blocks comes next. -/
  roto : Bool
  /-- Whether the grammars that the environment names come last. -/
  pluginsFromEnv : Bool
deriving DecidableEq

/-- What is wrong with the values of a configuration. -/
inductive ConfigProblem where
  | notAMapping
  | rootNotAString
  | tokensNotAPath
  | grammarsNotASequence
  | grammarNotAString
  | notABoolean (key : String)
  | noMatches (pattern : String)
deriving DecidableEq

def ConfigProblem.words : ConfigProblem → String
  | .notAMapping => "top level must be a mapping"
  | .rootNotAString => "'root' must be a string"
  | .tokensNotAPath => "'tokens' must be a path string"
  | .grammarsNotASequence => "Missing or invalid 'grammars' (must be a sequence)"
  | .grammarNotAString => "Grammar entry must be string"
  | .notABoolean key => "'" ++ key ++ "' must be a boolean"
  | .noMatches pattern => "grammar pattern " ++ Text.quoted pattern ++ " matched no files"

inductive ConfigError where
  | unreadable (cause : FileError)
  /-- The text is no YAML or holds no document. -/
  | malformed
  | invalid (problem : ConfigProblem)
  | badPattern
deriving DecidableEq

def ConfigError.message : ConfigError → String
  | .unreadable cause => "IO error: " ++ cause.message
  | .malformed => "YAML parse error"
  | .invalid problem => "Invalid Config: " ++ problem.words
  | .badPattern => "Invalid grammar pattern"

namespace ParserConfig

/-- The shipped tokens and grammar, and the grammars that the environment names. -/
def default : ParserConfig :=
  ⟨RuleTable.rootRule, none, [], true, false, true⟩

def rootOf (v : Yaml) : Except ConfigProblem String :=
  match v.field? "root" with
  | none => .ok default.root
  | some (.str s) => .ok s
  | some _ => .error .rootNotAString

def tokensOf (base : String) (v : Yaml) : Except ConfigProblem (Option String) :=
  match v.field? "tokens" with
  | none => .ok none
  | some (.str s) => .ok (some (Path.join base s))
  | some _ => .error .tokensNotAPath

/-- The entries of the list of grammars in a mapping. -/
def grammarsOf (v : Yaml) : Except ConfigProblem (List Yaml) :=
  match v.field? "grammars" with
  | none => .ok []
  | some (.seq items) => .ok items
  | some _ => .error .grammarsNotASequence

/-- The boolean under a key of a mapping. -/
def flagOf (v : Yaml) (key : String) (fallback : Bool) : Except ConfigProblem Bool :=
  match v.field? key with
  | none => .ok fallback
  | some (.bool b) => .ok b
  | some _ => .error (.notABoolean key)

variable {m : Type → Type} [Monad m]

/-- The files that an entry of the list of grammars names; there must be one. -/
def expandEntry (fs : FileSystem m) (base : String) (entry : Yaml) :
    m (Except ConfigError (List String)) := do
  match entry with
  | .str pattern =>
    match PathPattern.read? (Path.join base pattern) with
    | none => return .error .badPattern
    | some p =>
      let files ← p.expand fs
      if files.isEmpty then return .error (.invalid (.noMatches pattern)) else return .ok files
  | _ => return .error (.invalid .grammarNotAString)

/-- The files that the entries of the list of grammars name, in order. -/
def expandEntries (fs : FileSystem m) (base : String) :
    List Yaml → m (Except ConfigError (List String))
  | [] => return .ok []
  | entry :: rest => do
    match ← expandEntry fs base entry with
    | .error e => return .error e
    | .ok files =>
      match ← expandEntries fs base rest with
      | .error e => return .error e
      | .ok others => return .ok (files ++ others)

/-- The configuration that a mapping gives, with paths taken from `base`. The keys are looked at in
the order of the fields, and the first problem counts. -/
def ofYaml (fs : FileSystem m) (v : Yaml) (base : String) :
    m (Except ConfigError ParserConfig) := do
  if !v.isMap then return .error (.invalid .notAMapping)
  let start : Except ConfigProblem (String × Option String × List Yaml) := do
    return (← rootOf v, ← tokensOf base v, ← grammarsOf v)
  match start with
  | .error problem => return .error (.invalid problem)
  | .ok (root, tokens, entries) =>
    match ← expandEntries fs base entries with
    | .error e => return .error e
    | .ok grammars =>
      let flags : Except ConfigProblem ParserConfig := do
        let builtin ← flagOf v "builtin_grammar" default.builtinGrammar
        let roto ← flagOf v "roto" default.roto
        let plugins ← flagOf v "plugins_from_env" default.pluginsFromEnv
        return ⟨root, tokens, grammars, builtin, roto, plugins⟩
      return flags.mapError .invalid

/-- The configuration that a file gives: its first document, with paths taken from the directory of
the file. -/
def ofFile (fs : FileSystem m) (path : String) : m (Except ConfigError ParserConfig) := do
  match ← fs.read path with
  | .error e => return .error (.unreadable e)
  | .ok text =>
    match Yaml.read? text with
    | some (v :: _) => ofYaml fs v (Path.parent path)
    | _ => return .error .malformed

end ParserConfig

end NodeScript
