import NodeScript.Files
import NodeScript.OrderedTable
import NodeScript.Text.Blank
import NodeScript.Text.Lines

/-!
# Rule tables

A grammar is a table of rules, each with its alternatives in the order they are tried. Its text
has one alternative a line, `name ::= parts`; lines that repeat a name add alternatives to it.
-/

namespace NodeScript

inductive Part where
  /-- The name of a rule, or of a row of the token table where no rule has it. -/
  | symbol (name : String)
  | literal (text : String)
  | or
  | oneOrMore
deriving DecidableEq

abbrev Alternative := List Part

/-- The rules of a grammar with their alternatives. -/
abbrev RuleTable := OrderedTable (List Alternative)

/-- Why a text is no grammar, or a grammar cannot be used. -/
inductive GrammarError where
  | unreadable (path : String) (cause : FileError)
  | missingSeparator (line : Nat) (text : String)
  | emptyRuleName (line : Nat)
  | danglingOperator (rule : String)
  | unknownRule (rule : String)

def GrammarError.message : GrammarError → String
  | .unreadable path cause => "Cannot read grammar file " ++ path ++ ": " ++ cause.message
  | .missingSeparator line text =>
    "Line " ++ toString line ++ ": expected `name ::= parts`, got " ++ Text.quoted text
  | .emptyRuleName line => "Line " ++ toString line ++ ": rule name is empty"
  | .danglingOperator rule => "Rule " ++ rule ++ ": operator without an operand"
  | .unknownRule rule => "Unknown rule: " ++ rule

namespace Part

/-- Whether `c` opens a quoted literal. -/
def isQuote (c : Char) : Bool :=
  c == '"' || c == '\''

/-- The part that a word denotes: a literal when it stands in quotes, else a symbol. -/
def ofWord (word : List Char) : Part :=
  match word with
  | quote :: last :: more =>
    if isQuote quote ∧ (last :: more).getLast? = some quote then
      .literal (String.ofList (last :: more).dropLast)
    else .symbol (String.ofList word)
  | _ => .symbol (String.ofList word)

/-- The part of a word read so far, latest character first, unless it is empty. -/
def ofReversed (word : List Char) : List Part :=
  if word.isEmpty then [] else [ofWord word.reverse]

/-- The parts of a text, where `word` is the word read so far, latest character first, and `quote`
the quote that is open. Outside quotes blanks separate words, and the operators stand for
themselves wherever they are. -/
def splitFrom (quote : Option Char) (word : List Char) : List Char → List Part
  | [] => ofReversed word
  | c :: rest =>
    match quote with
    | some q => splitFrom (if c = q then none else some q) (c :: word) rest
    | none =>
      if isQuote c then splitFrom (some c) (c :: word) rest
      else if c = '|' then ofReversed word ++ .or :: splitFrom none [] rest
      else if c = '+' then ofReversed word ++ .oneOrMore :: splitFrom none [] rest
      else if Text.isBlank c then ofReversed word ++ splitFrom none [] rest
      else splitFrom none (c :: word) rest

/-- The parts of the right-hand side of a rule. -/
def split (text : List Char) : List Part :=
  splitFrom none [] text

end Part

namespace RuleTable

/-- A line up to the comment in it. A comment begins with two slashes outside quotes; `quote` is
the quote that is open. -/
def stripComment (quote : Option Char) : List Char → List Char
  | [] => []
  | c :: rest =>
    match quote with
    | some q => c :: stripComment (if c = q then none else some q) rest
    | none =>
      if Part.isQuote c then c :: stripComment (some c) rest
      else if c = '/' ∧ rest.head? = some '/' then []
      else c :: stripComment none rest

/-- The name and the parts of a line, number `line` of its text, that is neither blank nor only a
comment. -/
def ruleOfLine (line : Nat) (text : List Char) : Except GrammarError (String × Alternative) :=
  match Text.splitOnce? [':', ':', '='] text with
  | none => .error (.missingSeparator line (String.ofList text))
  | some (name, parts) =>
    let name := Text.trimChars name
    if name.isEmpty then .error (.emptyRuleName line)
    else .ok (String.ofList name, Part.split parts)

/-- The table with one more alternative of a rule, the last that is tried. -/
def push (table : RuleTable) (name : String) (alternative : Alternative) : RuleTable :=
  table.alter name (· ++ [alternative]) [alternative]

/-- The table with the rules of lines numbered from `line` on. -/
def addLines (table : RuleTable) (line : Nat) : List (List Char) → Except GrammarError RuleTable
  | [] => .ok table
  | text :: rest =>
    let text := Text.trimChars (stripComment none text)
    if text.isEmpty then addLines table (line + 1) rest
    else
      match ruleOfLine line text with
      | .error e => .error e
      | .ok (name, alternative) => addLines (table.push name alternative) (line + 1) rest

def read (source : String) : Except GrammarError RuleTable :=
  addLines OrderedTable.empty 1 (Text.lines source.toList)

/-- The table with another laid over it. A rule of the other replaces all alternatives of the rule
of the same name, and comes after the rules that stay. -/
def layer (table other : RuleTable) : RuleTable :=
  table.insertAll other

end RuleTable

end NodeScript
