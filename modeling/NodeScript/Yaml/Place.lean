import NodeScript.Yaml.Basic

/-!
# Places in YAML texts

A place is what is left of a text together with its line and column there. Line ends are line
feeds.
-/

namespace NodeScript.Yaml

def isBlank (c : Char) : Bool :=
  c == ' ' || c == '\t'

/-- Whether a blank, a line end or nothing comes next in a text. -/
def isBreak : List Char → Bool
  | [] => true
  | c :: _ => isBlank c || c == '\n'

/-- Whether `c` has a meaning in flow collections. -/
def isFlowMark (c : Char) : Bool :=
  c == ',' || c == '[' || c == ']' || c == '\x7b' || c == '\x7d'

/-- Whether a mark of flow collections comes next in a text. -/
def isBeforeFlowMark (cs : List Char) : Bool :=
  cs.head?.any isFlowMark

/-- A place in a text. -/
structure Place where
  rest : List Char
  line : Nat
  column : Nat
  /-- How many characters stand before the place. -/
  index : Nat
  /-- Whether only blanks stand before the place in its line. -/
  atMargin : Bool

namespace Place

def start (text : List Char) : Place :=
  ⟨text, 0, 0, 0, true⟩

def next (p : Place) : Place :=
  match p.rest with
  | [] => p
  | c :: rest =>
    if c = '\n' then ⟨rest, p.line + 1, 0, p.index + 1, true⟩
    else ⟨rest, p.line, p.column + 1, p.index + 1, p.atMargin && isBlank c⟩

def advance : Nat → Place → Place
  | 0, p => p
  | n + 1, p => advance n p.next

/-- The place after the characters that `test` holds of. -/
def skipWhile (test : Char → Bool) (p : Place) : Place :=
  p.advance (p.rest.takeWhile test).length

def skipLine (p : Place) : Place :=
  p.skipWhile (· != '\n')

def atLineEnd (p : Place) : Bool :=
  match p.rest with
  | [] => true
  | c :: _ => c == '\n'

/-- Whether three marks alone, or before a blank, come next. -/
def hasMark (mark : Char) (p : Place) : Bool :=
  match p.rest with
  | a :: b :: c :: rest => a == mark && b == mark && c == mark && isBreak rest
  | _ => false

/-- Whether what ends a document comes next. -/
def hasDocumentMark (p : Place) : Bool :=
  p.hasMark '-' || p.hasMark '.'

/-- The place after blanks and a comment. Without a blank before it there can be no comment. -/
def skipTail? (p : Place) : Option Place :=
  let next := p.skipWhile isBlank
  match next.rest with
  | '#' :: _ => if next.column = p.column then none else some next.skipLine
  | _ => some next

/-- The place after spaces, comments and line ends. Every round reads a line, so `limit` is more
than their count. -/
def skipSpaces : (limit : Nat) → Place → Place
  | 0, p => p
  | limit + 1, p =>
    let next := p.skipWhile fun c => c == ' ' || c == '\n'
    match next.rest with
    | '#' :: _ => skipSpaces limit next.skipLine
    | _ => next

/-- The start of the next line that has more than blanks and a comment, or the place after blanks
when it is in this line. A line that begins with a tab left of the column `margin` must have
nothing else. Every round reads a line, so `limit` is more than their count. -/
def skipGap? (margin : Nat) : (limit : Nat) → Place → Option Place
  | 0, _ => none
  | limit + 1, p =>
    let blanks := p.rest.takeWhile isBlank
    let next := p.advance blanks.length
    let next := match next.rest with
      | '#' :: _ => next.skipLine
      | _ => next
    let tabbed := p.atMargin && (blanks.take (margin - p.column)).contains '\t'
    if next.rest.isEmpty then some next
    else if next.atLineEnd then skipGap? margin limit next.next
    else if tabbed then none
    else some next

end Place

end NodeScript.Yaml
