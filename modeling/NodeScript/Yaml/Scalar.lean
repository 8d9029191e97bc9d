import NodeScript.Yaml.Place

/-!
# Scalars in YAML texts

Scalars in single quotes, in double quotes and without quotes. A scalar can go over several lines,
which must not begin too far to the left; line ends in it are folded.
-/

namespace NodeScript.Yaml

/-- What stands between two words of a scalar: blanks, or line ends with blanks around them. -/
structure Gap where
  blanks : List Char
  lineEnds : Nat

namespace Gap

def empty : Gap := ⟨[], 0⟩

def addBlank (c : Char) (g : Gap) : Gap :=
  if g.lineEnds = 0 then { g with blanks := c :: g.blanks } else g

def addLineEnd (g : Gap) : Gap :=
  ⟨[], g.lineEnds + 1⟩

/-- What a gap stands for: one line end for a space, and of more the first is dropped. -/
def text (g : Gap) : List Char :=
  match g.lineEnds with
  | 0 => g.blanks
  | 1 => [' ']
  | n + 2 => List.replicate (n + 1) '\n'

end Gap

/-! ## Scalars without quotes -/

/-- Whether a colon before `rest` ends a key. -/
def endsKey (flow : Bool) (rest : List Char) : Bool :=
  isBreak rest || (flow && isBeforeFlowMark rest)

/-- The characters up to the next blank or mark. -/
def plainWord (flow : Bool) : List Char → List Char
  | [] => []
  | c :: rest =>
    if isBreak (c :: rest) || (c = ':' && endsKey flow rest) || (flow && isFlowMark c) then []
    else c :: plainWord flow rest

/-- The gap at a place, and the place after it. A line that begins with a tab left of the column
`least` must have nothing else but a comment. Every round reads a character, so `limit` is more
than their count. -/
def plainGap? (least : Nat) : (limit : Nat) → Place → Option (Gap × Place)
  | 0, _ => none
  | limit + 1, p =>
    match p.rest with
    | [] => some (.empty, p)
    | c :: _ =>
      if c = '\n' then (plainGap? least limit p.next).map fun (g, p) => (g.addLineEnd, p)
      else if !isBlank c then some (.empty, p)
      else if !p.atMargin then
        (plainGap? least limit p.next).map fun (g, p) => (g.addBlank c, p)
      else if c = '\t' && p.column < least then
        match p.skipTail? with
        | some next => if next.atLineEnd then plainGap? least limit next else none
        | none => none
      else plainGap? least limit p.next

/-- A scalar without quotes, and the place after it and the gap behind it. Outside flow collections
its lines begin at the column `least` at least; a comment or the end of the document ends it.
`before` is the gap before the next word, and every round reads a word, so `limit` is more than
their count. -/
def plainFrom? (flow : Bool) (least : Nat) :
    (limit : Nat) → (before : Gap) → Place → Option (List Char × Place)
  | 0, _, _ => none
  | limit + 1, before, p =>
    if (p.atMargin && p.hasDocumentMark) || p.rest.head? == some '#' then some ([], p)
    else if flow && p.rest.head? == some '-' && isBeforeFlowMark (p.rest.drop 1) then none
    else
      let word := plainWord flow p.rest
      let text := if word.isEmpty then [] else before.text ++ word
      let next := p.advance word.length
      if !isBreak next.rest || next.rest.isEmpty then some (text, next)
      else
        match plainGap? least (next.rest.length + 1) next with
        | none => none
        | some (g, next) =>
          if !flow && next.column < least then some (text, next)
          else (plainFrom? flow least limit g next).map fun (more, next) => (text ++ more, next)

/-- A scalar without quotes, and the place after it and the gap behind it. -/
def plain? (flow : Bool) (least : Nat) (p : Place) : Option (List Char × Place) :=
  if flow && p.column < least then none
  else plainFrom? flow least (p.rest.length + 1) .empty p

/-! ## Scalars in quotes -/

/-- The character that a single-letter escape denotes. -/
def escaped? (c : Char) : Option Char :=
  match c with
  | '0' => some '\x00'
  | 'a' => some '\x07'
  | 'b' => some '\x08'
  | 't' => some '\t'
  | '\t' => some '\t'
  | 'n' => some '\n'
  | 'v' => some '\x0b'
  | 'f' => some '\x0c'
  | 'r' => some '\r'
  | 'e' => some '\x1b'
  | ' ' => some ' '
  | '"' => some '"'
  | '/' => some '/'
  | '\\' => some '\\'
  | 'N' => some '\u0085'
  | '_' => some '\u00a0'
  | 'L' => some '\u2028'
  | 'P' => some '\u2029'
  | _ => none

/-- How many digits of base sixteen an escape has. -/
def escapeDigits? (c : Char) : Option Nat :=
  match c with
  | 'x' => some 2
  | 'u' => some 4
  | 'U' => some 8
  | _ => none

/-- The character given by digits of base sixteen. -/
def charOfDigits? (digits : List Char) : Option Char :=
  (readBase? 16 digits).bind fun n => if n.isValidChar then some (Char.ofNat n) else none

/-- What a backslash before `rest` denotes, and how many characters it takes with the backslash. -/
def escape? (rest : List Char) : Option (Char × Nat) :=
  match rest with
  | [] => none
  | c :: rest =>
    match escapeDigits? c with
    | some n =>
      if rest.length < n then none
      else (charOfDigits? (rest.take n)).map fun x => (x, n + 2)
    | none => (escaped? c).map fun x => (x, 2)

/-- The part of a scalar in quotes up to the next blank or the closing quote. -/
structure QuotedWord where
  text : List Char
  /-- Whether an escaped line end ends the part. -/
  escapedEnd : Bool
  place : Place

/-- The word with another character before it. -/
def QuotedWord.add (c : Char) (w : QuotedWord) : QuotedWord :=
  { w with text := c :: w.text }

/-- The part of a scalar in the quotes `quote` up to the next blank or the closing quote. In single
quotes a quote is written twice, in double quotes there are escapes. Every round reads a character,
so `limit` is more than their count. -/
def quotedWord? (quote : Char) : (limit : Nat) → Place → Option QuotedWord
  | 0, _ => none
  | limit + 1, p =>
    match p.rest with
    | [] => some ⟨[], false, p⟩
    | c :: rest =>
      if isBreak (c :: rest) then some ⟨[], false, p⟩
      else if quote = '\'' && c = '\'' && rest.head? == some '\'' then
        (quotedWord? quote limit (p.advance 2)).map (.add '\'')
      else if c = quote then some ⟨[], false, p⟩
      else if quote = '"' && c = '\\' then
        if rest.head? == some '\n' then some ⟨[], true, p.advance 2⟩
        else
          match escape? rest with
          | some (x, n) => (quotedWord? quote limit (p.advance n)).map (.add x)
          | none => none
      else (quotedWord? quote limit p.next).map (.add c)

/-- A gap in a scalar in quotes, `atMargin` telling whether it begins after a line end. A tab must
not stand at the start of a line left of the column `margin`. -/
def quotedGap? (margin : Nat) (atMargin : Bool) (column : Nat) : List Char → Option Gap
  | [] => some .empty
  | c :: rest =>
    if c = '\n' then (quotedGap? margin true 0 rest).map .addLineEnd
    else if !atMargin then (quotedGap? margin false (column + 1) rest).map (.addBlank c)
    else if c = '\t' && column < margin then none
    else quotedGap? margin true (column + 1) rest

/-- A scalar in quotes after the opening quote, and the place after the closing one. Its lines begin
at the column `margin` at least. Every round reads a word, so `limit` is more than their count. -/
def quotedFrom? (quote : Char) (margin : Nat) : (limit : Nat) → Place → Option (List Char × Place)
  | 0, _ => none
  | limit + 1, p =>
    if p.rest.isEmpty || p.column < margin || (p.column = 0 && p.hasDocumentMark) then none
    else
      match quotedWord? quote (p.rest.length + 1) p with
      | none => none
      | some ⟨word, escapedEnd, next⟩ =>
        if next.rest.head? == some quote then some (word, next.next)
        else
          let blanks := next.rest.takeWhile fun c => isBlank c || c == '\n'
          match quotedGap? margin escapedEnd next.column blanks with
          | none => none
          | some g =>
            let gap := if escapedEnd then List.replicate g.lineEnds '\n' else g.text
            (quotedFrom? quote margin limit (next.advance blanks.length)).map
              fun (more, next) => (word ++ gap ++ more, next)

/-- The scalar in quotes that begins at a place, and the place after it and what may follow in its
line: a mark of a flow collection, a colon, which outside flow collections must stand in the line
where the scalar begins, or a comment. -/
def quoted? (quote : Char) (flow : Bool) (margin : Nat) (p : Place) : Option (List Char × Place) :=
  match quotedFrom? quote margin (p.rest.length + 1) p.next with
  | none => none
  | some (text, next) =>
    match next.skipTail? with
    | none => none
    | some tail =>
      let allowed := match tail.rest with
        | [] => true
        | c :: _ =>
          c == '\n' || (c == ':' && (flow || p.line = tail.line)) ||
            (flow && (c == ',' || c == ']' || c == '\x7d'))
      if allowed then some (text, tail) else none

end NodeScript.Yaml
