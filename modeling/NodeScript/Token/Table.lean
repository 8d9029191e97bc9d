import NodeScript.Files
import NodeScript.Pattern.Finder
import NodeScript.Pattern.Reader
import NodeScript.Text.Lines
import NodeScript.Token.Basic

/-!
# Token tables

A table is a list of rows, each with a name, a pattern and perhaps a tag. At every position the
first row whose pattern matches something there wins; a row without a tag uses up its text
without giving a token.

A row is meant to match where the rest of the script begins, and does so if its pattern reads by
itself. A pattern that gets out of the brackets around it, such as `a)|(?:b`, can match further on.
Of such a match only the length counts: the script goes on as many bytes after the position as the
match has. These may end inside a character, where no text begins, and to cut a script there is a
fault that stops the program. Here `tokenizeFrom` goes on at the next character instead.
-/

namespace NodeScript

structure TokenRow where
  name : String
  /-- The text of the pattern. -/
  pattern : String
  tag : Option String
  /-- The pattern at the start of a text. -/
  scanner : Finder
  /-- The pattern as the whole of a text. -/
  matcher : Finder

/-- Why a text is no token table. -/
inductive TokenTableError where
  | unreadable (cause : FileError)
  | malformedRow (line : Nat)
  | invalidPattern (name : String)

def TokenTableError.message : TokenTableError → String
  | .unreadable cause => "IO error: " ++ cause.message
  | .malformedRow line =>
    "Malformed token row " ++ toString line ++ ": expected `name<TAB>pattern<TAB>tag`"
  | .invalidPattern name => "Invalid pattern for token " ++ name

namespace TokenRow

/-- The text of the pattern tied to the start of a text. -/
def scannerText (pattern : List Char) : List Char :=
  ['^', '(', '?', ':'] ++ pattern ++ [')']

/-- The text of the pattern tied to both ends of a text. -/
def matcherText (pattern : List Char) : List Char :=
  scannerText pattern ++ ['$']

def make (name pattern : List Char) (tag : Option (List Char)) : Except TokenTableError TokenRow :=
  match Pattern.read? (scannerText pattern), Pattern.read? (matcherText pattern) with
  | some scanner, some matcher =>
    .ok ⟨String.ofList name, String.ofList pattern, tag.map String.ofList, .ofPattern scanner,
      .ofPattern matcher⟩
  | _, _ => .error (.invalidPattern (String.ofList name))

/-- Whether `text` as a whole is a token of this row. -/
def accepts (row : TokenRow) (text : String) : Bool :=
  row.matcher.matchesIn text.toList

/-- The text that the row takes from `rest`, never an empty one. -/
def scan? (row : TokenRow) (rest : List Char) : Option (List Char) :=
  match row.scanner.find? rest with
  | some (start, stop) =>
    if start < stop then some ((rest.drop start).take (stop - start)) else none
  | none => none

/-- The row of a line of a table, which is line number `line` and not empty. -/
def ofLine (line : Nat) (text : List Char) : Except TokenTableError TokenRow :=
  match Text.splitAt '\t' text with
  | name :: pattern :: columns =>
    if name.isEmpty || pattern.isEmpty then .error (.malformedRow line)
    else make name pattern ((columns.head?.map Text.trimChars).filter (!·.isEmpty))
  | _ => .error (.malformedRow line)

end TokenRow

structure TokenTable where
  rows : List TokenRow

/-- The first position of a script where no row matches, and the character there. -/
structure LexError where
  position : Nat
  character : Char
deriving DecidableEq

def LexError.message (e : LexError) : String :=
  "Illegal character " ++ Text.quotedChar e.character ++ " at position " ++ toString e.position

namespace TokenTable

/-- A line of a table without carriage returns at its end. -/
def trimReturns (line : List Char) : List Char :=
  (line.reverse.dropWhile (· == '\r')).reverse

/-- The rows of lines numbered from `line` on. Empty lines are skipped. -/
def rowsOfLines (line : Nat) : List (List Char) → Except TokenTableError (List TokenRow)
  | [] => .ok []
  | text :: rest =>
    let text := trimReturns text
    if text.isEmpty then rowsOfLines (line + 1) rest
    else do
      let row ← TokenRow.ofLine line text
      let rows ← rowsOfLines (line + 1) rest
      .ok (row :: rows)

/-- The table that a text holds, one row a line, with tabs between the columns. -/
def read (source : String) : Except TokenTableError TokenTable :=
  (rowsOfLines 1 (Text.lines source.toList)).map TokenTable.mk

def row? (table : TokenTable) (name : String) : Option TokenRow :=
  table.rows.find? (·.name == name)

/-- The first row that takes a text from `rest`, with that text. -/
def firstScan? (table : TokenTable) (rest : List Char) : Option (TokenRow × List Char) :=
  table.rows.findSome? fun row => (row.scan? rest).map (row, ·)

/-- The token of a row's text at a position; a row without a tag gives none. -/
def tokenOf? (row : TokenRow) (matched : List Char) (position : Nat) : Option Token :=
  row.tag.map fun tag =>
    ⟨row.name, String.ofList matched, some tag, ⟨position, position + Text.byteLength matched⟩⟩

/-- The tokens from a position on, of whose text the first `taken` bytes belong to the token
before. Where these end inside a character, which they do for no row that takes its text from where
the rest begins, the tokens go on at the next character. -/
def tokenizeFrom (table : TokenTable) (taken position : Nat) :
    List Char → Except LexError (List Token)
  | [] => .ok []
  | c :: rest =>
    if 0 < taken then
      tokenizeFrom table (taken - c.utf8Size) (position + c.utf8Size) rest
    else
      match table.firstScan? (c :: rest) with
      | none => .error ⟨position, c⟩
      | some (row, matched) => do
        let tokens ← tokenizeFrom table (Text.byteLength matched - c.utf8Size)
          (position + c.utf8Size) rest
        .ok ((tokenOf? row matched position).toList ++ tokens)

/-- All tokens of a script, or the first position where no row matches. -/
def tokenize (table : TokenTable) (script : String) : Except LexError (List Token) :=
  tokenizeFrom table 0 0 script.toList

end TokenTable

end NodeScript
