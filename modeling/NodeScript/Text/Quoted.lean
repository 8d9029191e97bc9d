import NodeScript.Text.Printable

/-!
# Quoted text

How messages show a text or a character: between quotes, with the quote itself, the backslash
and every character without a shape of its own escaped.
-/

namespace NodeScript.Text

/-- The digits of `n` in base sixteen, in lower case. -/
def hexDigits (n : Nat) : String :=
  String.ofList (Nat.toDigits 16 n)

/-- The escaped form of `c` between two marks `quote`. -/
def escapeWithin (quote c : Char) : String :=
  if c = quote ∨ c = '\\' then String.ofList ['\\', c]
  else if c = '\n' then "\\n"
  else if c = '\r' then "\\r"
  else if c = '\t' then "\\t"
  else if c = '\x00' then "\\0"
  else if isPrintable c then c.toString
  else "\\u\x7b" ++ hexDigits c.toNat ++ "\x7d"

def quoted (s : String) : String :=
  "\"" ++ String.join (s.toList.map (escapeWithin '"')) ++ "\""

def quotedChar (c : Char) : String :=
  "'" ++ escapeWithin '\'' c ++ "'"

end NodeScript.Text
