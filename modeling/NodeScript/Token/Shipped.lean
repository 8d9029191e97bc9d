import NodeScript.Token.Table

/-!
# The shipped token table

The tokens of node scripts. A frame is looked for before a word, so `x1` alone is a frame; a
grammar tests the text of a token and not its name, so it still serves as a word.
-/

namespace NodeScript.TokenTable

def shippedRows : List String := [
  "WHITESPACE\t\\s+\tIGNORE",
  "COMMENT\t#[^\\n]*\tIGNORE",
  "OPEN_BRACE\t\\\x7b\tRESERVED",
  "CLOSE_BRACE\t\\\x7d\tRESERVED",
  "OPEN_BRACKET\t\\[\tRESERVED",
  "CLOSE_BRACKET\t\\]\tRESERVED",
  "OPEN_PAREN\t\\(\tRESERVED",
  "CLOSE_PAREN\t\\)\tRESERVED",
  "TCL_VAR\t\\$\tRESERVED",
  "TCL_SET\tset\\b\tRESERVED",
  "TCL_PUSH\tpush\\b\tRESERVED",
  "STRING\t\"(?:[^\"\\\\]|\\\\.)*\"\tSTRING",
  "FRAME\tx[0-9]+(?:\\.[0-9]+)?\\b\tID",
  "FLOAT\t[-+]?(?:[0-9]+\\.[0-9]*(?:[eE][-+]?[0-9]+)?|\\.[0-9]+(?:[eE][-+]?[0-9]+)?|[0-9]+[eE][-+]?[0-9]+)\tINT",
  "INT\t[-+]?[0-9]+\tINT",
  "WORD\t[A-Za-z_][A-Za-z0-9_.]*\tID"]

def shippedText : String :=
  Text.unlines shippedRows

def shipped : Except TokenTableError TokenTable :=
  read shippedText

end NodeScript.TokenTable
