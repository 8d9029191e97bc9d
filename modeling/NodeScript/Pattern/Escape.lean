import NodeScript.Decimal.Reader
import NodeScript.Pattern.Basic

/-!
# Escapes in patterns

What a backslash introduces: a character, a class of characters or a condition on the place.
-/

namespace NodeScript.Pattern

/-- One element of a pattern's text: a character, a class or a condition. -/
inductive Element where
  | char (c : Char)
  | set (s : CharSet)
  | anchor (a : Anchor)

def hexValue? (c : Char) : Option Nat :=
  if c.isDigit then some (c.toNat - '0'.toNat)
  else if 'a' ≤ c ∧ c ≤ 'f' then some (c.toNat - 'a'.toNat + 10)
  else if 'A' ≤ c ∧ c ≤ 'F' then some (c.toNat - 'A'.toNat + 10)
  else none

/-- The character whose code point hexadecimal digits give. -/
def charOfHex? (digits : List Char) : Option Char := do
  let values ← digits.mapM hexValue?
  let n := values.foldl (fun n v => 16 * n + v) 0
  if values.isEmpty || !decide n.isValidChar then none else some (Char.ofNat n)

/-- The text up to a closing brace, and what follows the brace. -/
def untilBrace? (cs : List Char) : Option (List Char × List Char) :=
  match cs.span (· != '\x7d') with
  | (inner, _ :: rest) => some (inner, rest)
  | (_, []) => none

/-- A code point in exactly `count` digits, or in braces. -/
def readCodePoint? (count : Nat) : List Char → Option (Element × List Char)
  | '\x7b' :: cs => do
    let (digits, rest) ← untilBrace? cs
    let c ← charOfHex? digits
    some (.char c, rest)
  | cs => do
    if cs.length < count then none
    let c ← charOfHex? (cs.take count)
    some (.char c, cs.drop count)

/-- Whether `c` is a letter of a name in braces after `\b`. -/
def isBoundaryLetter (c : Char) : Bool :=
  c.isAlpha || c == '-'

/-- The word boundary, which a name in braces narrows down. Braces that hold no name are left to
be read as a count. -/
def readBoundary? (cs : List Char) : Option (Element × List Char) :=
  match cs with
  | '\x7b' :: inner =>
    if inner.head?.any isBoundaryLetter then do
      let (name, rest) ← untilBrace? inner
      let anchor ← match String.ofList name with
        | "start" => some Anchor.wordStart
        | "end" => some .wordEnd
        | "start-half" => some .wordStartHalf
        | "end-half" => some .wordEndHalf
        | _ => none
      some (.anchor anchor, rest)
    else some (.anchor .wordBoundary, cs)
  | _ => some (.anchor .wordBoundary, cs)

/-- What follows a backslash. Of the ASCII characters only letters and digits have meanings of
their own; any other stands for itself. -/
def readEscape? : List Char → Option (Element × List Char)
  | [] => none
  | c :: rest =>
    match c with
    | 'd' => some (.set .digit, rest)
    | 'D' => some (.set (.compl .digit), rest)
    | 's' => some (.set .blank, rest)
    | 'S' => some (.set (.compl .blank), rest)
    | 'w' => some (.set .word, rest)
    | 'W' => some (.set (.compl .word), rest)
    | 'x' => readCodePoint? 2 rest
    | 'u' => readCodePoint? 4 rest
    | 'U' => readCodePoint? 8 rest
    | 'a' => some (.char '\x07', rest)
    | 'f' => some (.char '\x0c', rest)
    | 't' => some (.char '\t', rest)
    | 'n' => some (.char '\n', rest)
    | 'r' => some (.char '\r', rest)
    | 'v' => some (.char '\x0b', rest)
    | 'A' => some (.anchor .textStart, rest)
    | 'z' => some (.anchor .textEnd, rest)
    | 'b' => readBoundary? rest
    | 'B' => some (.anchor .notWordBoundary, rest)
    | '<' => some (.anchor .wordStart, rest)
    | '>' => some (.anchor .wordEnd, rest)
    | _ => if c.toNat < 0x80 && !c.isAlphanum then some (.char c, rest) else none

end NodeScript.Pattern
