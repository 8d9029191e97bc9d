import NodeScript.Pattern.Canonical
import NodeScript.Proofs.Results
import NodeScript.Token.Shipped

/-!
# The table of script tokens

The shipped token table as a list of rows, each with the parts of its pattern. All its patterns are
steady.
-/

namespace NodeScript

namespace CharSet

/-- The digits of ASCII. -/
def asciiDigit : CharSet :=
  .range '0' '9'

/-- A plus or a minus. -/
def sign : CharSet :=
  .union (.single '-') (.single '+')

/-- The mark of an exponent. -/
def exponentMark : CharSet :=
  .union (.single 'e') (.single 'E')

/-- What a word begins with. -/
def wordHead : CharSet :=
  .union (.range 'A' 'Z') (.union (.range 'a' 'z') (.single '_'))

/-- What a word goes on with. -/
def wordTail : CharSet :=
  .union (.range 'A' 'Z') (.union (.range 'a' 'z')
    (.union (.range '0' '9') (.union (.single '_') (.single '.'))))

end CharSet

namespace Pattern

/-- A character. -/
def char (c : Char) : Pattern :=
  .one (.single c)

/-- As many characters of a set as there are. -/
def anyOf (set : CharSet) : Pattern :=
  .rep (.one set) 0 none true

/-- As many characters of a set as there are, at least one. -/
def someOf (set : CharSet) : Pattern :=
  .rep (.one set) 1 none true

/-- The pattern, or nothing. -/
def optional (p : Pattern) : Pattern :=
  .rep p 0 (some 1) true

/-- A word, as far as it goes. -/
def keyword (text : List Char) : List Pattern :=
  text.map char ++ [.anchor .wordBoundary]

/-- The exponent of a number. -/
def exponent : Pattern :=
  .concat [.one .exponentMark, .optional (.one .sign), .someOf .asciiDigit]

end Pattern

namespace TokenRow

/-- The row of a steady pattern with the given parts. -/
def ofParts (name pattern tag : String) (parts : List Pattern) : TokenRow :=
  ⟨name, pattern, some tag, .steady (.concat (.anchor .textStart :: parts)),
    .steady (.concat (.anchor .textStart :: (parts ++ [.anchor .textEnd])))⟩

open Pattern

def whitespace : TokenRow :=
  ofParts "WHITESPACE" "\\s+" "IGNORE" [.someOf .blank]

def comment : TokenRow :=
  ofParts "COMMENT" "#[^\\n]*" "IGNORE" [char '#', anyOf (.compl (.single '\n'))]

/-- The row of a single mark. -/
def mark (name pattern : String) (c : Char) : TokenRow :=
  ofParts name pattern "RESERVED" [char c]

def setCommand : TokenRow :=
  ofParts "TCL_SET" "set\\b" "RESERVED" (keyword ['s', 'e', 't'])

def pushCommand : TokenRow :=
  ofParts "TCL_PUSH" "push\\b" "RESERVED" (keyword ['p', 'u', 's', 'h'])

def string : TokenRow :=
  ofParts "STRING" "\"(?:[^\"\\\\]|\\\\.)*\"" "STRING" [char '"',
    .rep (.alt (.one (.compl (.union (.single '"') (.single '\\'))))
      (.concat [char '\\', .one .notLineFeed])) 0 none true, char '"']

def frame : TokenRow :=
  ofParts "FRAME" "x[0-9]+(?:\\.[0-9]+)?\\b" "ID" [char 'x', .someOf .asciiDigit,
    .optional (.concat [char '.', .someOf .asciiDigit]), .anchor .wordBoundary]

def float : TokenRow :=
  ofParts "FLOAT" ("[-+]?(?:[0-9]+\\.[0-9]*(?:[eE][-+]?[0-9]+)?|" ++
    "\\.[0-9]+(?:[eE][-+]?[0-9]+)?|[0-9]+[eE][-+]?[0-9]+)") "INT" [.optional (.one .sign),
      .alt (.concat [.someOf .asciiDigit, char '.', anyOf .asciiDigit, .optional exponent])
        (.alt (.concat [char '.', .someOf .asciiDigit, .optional exponent])
          (.concat [.someOf .asciiDigit, exponent]))]

def int : TokenRow :=
  ofParts "INT" "[-+]?[0-9]+" "INT" [.optional (.one .sign), .someOf .asciiDigit]

def word : TokenRow :=
  ofParts "WORD" "[A-Za-z_][A-Za-z0-9_.]*" "ID" [.one .wordHead, anyOf .wordTail]

/-- The patterns of a row, when they are steady. -/
def steadyPatterns? (row : TokenRow) : Option (Pattern × Pattern) :=
  match row.scanner, row.matcher with
  | .steady scanner, .steady matcher => some (scanner, matcher)
  | _, _ => none

/-- What is written in the columns of a row. -/
def columns (row : TokenRow) : String × String × Option String :=
  (row.name, row.pattern, row.tag)

/-- A row is told by its columns and its patterns, when they are steady. -/
def key (row : TokenRow) : (String × String × Option String) × Option (Pattern × Pattern) :=
  (row.columns, row.steadyPatterns?)

theorem eq_of_key_eq {row row' : TokenRow} (h : row.key = row'.key)
    (hs : row'.steadyPatterns?.isSome) : row = row' := by
  obtain ⟨name, pattern, tag, scanner, matcher⟩ := row
  obtain ⟨name', pattern', tag', scanner', matcher'⟩ := row'
  cases scanner' <;> cases matcher' <;> cases scanner <;> cases matcher <;>
    simp_all [key, columns, steadyPatterns?]

end TokenRow

namespace TokenTable

/-- Whether the text of a token as a whole is of the first row of a name. -/
def admits (table : TokenTable) (name : String) (t : Token) : Bool :=
  (table.row? name).any (·.accepts t.text)

open TokenRow in
/-- The table of script tokens. -/
def script : TokenTable := ⟨[
  whitespace,
  comment,
  mark "OPEN_BRACE" "\\\x7b" '\x7b',
  mark "CLOSE_BRACE" "\\\x7d" '\x7d',
  mark "OPEN_BRACKET" "\\[" '[',
  mark "CLOSE_BRACKET" "\\]" ']',
  mark "OPEN_PAREN" "\\(" '(',
  mark "CLOSE_PAREN" "\\)" ')',
  mark "TCL_VAR" "\\$" '$',
  setCommand, pushCommand, string, frame, float, int, word]⟩

theorem rows_eq_of_keys {rows rows' : List TokenRow}
    (h : rows.map TokenRow.key = rows'.map TokenRow.key)
    (hs : ∀ row ∈ rows', row.steadyPatterns?.isSome) : rows = rows' := by
  induction rows' generalizing rows with
  | nil => simpa using h
  | cons row' rows' ih =>
      match rows, h with
      | row :: rows, h =>
          simp only [List.map_cons, List.cons.injEq] at h
          obtain ⟨hr, hs'⟩ := List.forall_mem_cons.1 hs
          rw [TokenRow.eq_of_key_eq h.1 hr, ih h.2 hs']

theorem eq_ok_of_keys {ε : Type} {r : Except ε (List TokenRow)} {rows : List TokenRow}
    (h : r.toOption.map (List.map TokenRow.key) = some (rows.map TokenRow.key))
    (hs : ∀ row ∈ rows, row.steadyPatterns?.isSome) : r = .ok rows := by
  obtain ⟨rows', hr, hk⟩ := Option.map_eq_some_iff.1 h
  rw [toOption_eq_some_iff.1 hr, rows_eq_of_keys hk hs]

/-- The shipped table text holds the table of script tokens. -/
theorem shipped_eq : shipped = .ok script := by
  have h : ∀ l ∈ shippedRows, '\n' ∉ l.toList ∧ l.toList.getLast? ≠ some '\r' := by decide +kernel
  have hr : rowsOfLines 1 (shippedRows.map String.toList) = .ok script.rows :=
    eq_ok_of_keys (by decide +kernel) (by decide +kernel)
  rw [shipped, read, shippedText, Text.lines_unlines h, hr]
  rfl

end TokenTable

end NodeScript
