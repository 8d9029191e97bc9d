import NodeScript.Yaml.Token

/-!
# The layout of YAML texts

The tokens of a text are found from left to right. A block collection begins where its first entry
stands further to the right than the block around it, and it ends before the first token that
stands further to the left than its entries. That something is a key is seen only at the colon
behind it; the tokens for the key, and for a mapping that begins with it, are then put in before
what has been found.
-/

namespace NodeScript.Yaml

/-- A margin of the text: no token of a block may stand left of it. -/
structure Margin where
  column : Nat
  /-- Whether a block collection has its entries at the column. Other margins only keep what
  belongs to an entry further to the right than the entry. -/
  isBlock : Bool

/-- Where a key begins, should a colon follow. -/
structure KeyStart where
  place : Place
  /-- How many tokens stand before it. -/
  position : Nat
  /-- Whether nothing else than a key can stand there. -/
  required : Bool

/-- How far the tokens of a text have been found. -/
structure Layout where
  place : Place
  tokens : Array Token
  /-- The margins of the open blocks, innermost first. -/
  margins : List Margin
  /-- The possible key in the innermost open flow collection, or in the block outside of all. -/
  candidate : Option KeyStart
  /-- The possible keys around the open flow collections, innermost first. -/
  outer : List (Option KeyStart)
  /-- Whether a key, or in a block an entry, can begin at the place. -/
  keyAllowed : Bool
  /-- For each open flow sequence, innermost first, whether it is in a mapping without braces. -/
  bare : List Bool
  /-- Whether a mapping with braces, or with a question mark, has begun since a mapping without
  braces last ended. -/
  marked : Bool
  /-- The index at which a colon needs no blank behind it. -/
  adjacent : Option Nat

namespace Layout

def start (text : List Char) : Layout :=
  ⟨.start text, #[], [], none, [], true, [], false, none⟩

def inFlow (s : Layout) : Bool :=
  !s.outer.isEmpty

/-- The column left of which a line must not have a tab. -/
def margin (s : Layout) : Nat :=
  match s.margins with
  | [] => 0
  | m :: _ => m.column

def emit (t : Token) (s : Layout) : Layout :=
  { s with tokens := s.tokens.push t }

/-- One more token after the first `position` ones. -/
def insert (position : Nat) (t : Token) (s : Layout) : Layout :=
  { s with tokens := s.tokens.insertIdxIfInBounds position t }

/-- The layout at another place. -/
def moveTo (p : Place) (s : Layout) : Layout :=
  { s with place := p }

/-- Skips a mark of `n` characters. -/
def skip (n : Nat) (s : Layout) : Layout :=
  s.moveTo (s.place.advance n)

/-- Skips blanks and a comment, which must have a blank before it. -/
def skipTail? (s : Layout) : Option Layout :=
  s.place.skipTail?.map s.moveTo

/-- Allows a key to begin at the place, or not. -/
def allowKey (allowed : Bool) (s : Layout) : Layout :=
  { s with keyAllowed := allowed }

/-! ## Margins -/

/-- Ends the blocks whose margin is right of the column, all blocks when there is none. -/
def closeBlocks (column : Option Nat) (s : Layout) : Layout :=
  if s.inFlow then s
  else
    let isClosed (m : Margin) : Bool := match column with
      | some c => c < m.column
      | none => true
    let (closed, margins) := s.margins.span isClosed
    let ends := (closed.filter (·.isBlock)).map fun _ => Token.blockEnd
    { s with margins, tokens := s.tokens ++ ends.toArray }

/-- Begins a block collection with an entry at the column, unless the innermost block has its
entries there. The token `t` goes after the first `position` ones. -/
def openBlock (column position : Nat) (t : Token) (s : Layout) : Layout :=
  if s.inFlow then s
  else
    let margins := match s.margins with
      | ⟨c, false⟩ :: outer => if c ≤ column then outer else s.margins
      | margins => margins
    let isOpen := match margins with
      | [] => false
      | m :: _ => column ≤ m.column
    if isOpen then { s with margins }
    else { s with margins := ⟨column, true⟩ :: margins }.insert position t

/-- Keeps what follows to the right of the entries of the innermost block. -/
def indent (s : Layout) : Layout :=
  match s.margins with
  | ⟨column, true⟩ :: _ =>
    if s.inFlow then s else { s with margins := ⟨column + 1, false⟩ :: s.margins }
  | _ => s

/-- Keeps what follows no further to the right than the innermost block. -/
def unindent (s : Layout) : Layout :=
  { s with margins := s.margins.dropWhile (!·.isBlock) }

/-! ## Keys -/

/-- Notes that a key can begin at the place, when it is allowed. It must be one where only an entry
of the innermost block can stand. -/
def saveKey (s : Layout) : Layout :=
  if s.keyAllowed then
    let required := !s.inFlow && (match s.margins with
      | ⟨column, true⟩ :: _ => column = s.place.column
      | _ => false)
    { s with candidate := some ⟨s.place, s.tokens.size, required⟩ }
  else s

/-- Gives up the possible key, which must not be a required one. -/
def dropKey? (s : Layout) : Option Layout :=
  if s.candidate.any (·.required) then none else some { s with candidate := none }

/-- How many characters a key in a block can have, with the blanks before its colon. -/
def maxKeyLength : Nat := 1024

/-- Gives up the possible key of a block when its line has ended or it has become too long. -/
def dropStaleKey? (s : Layout) : Option Layout :=
  match s.candidate with
  | some k =>
    if !s.inFlow &&
        (k.place.line < s.place.line || k.place.index + maxKeyLength < s.place.index) then
      s.dropKey?
    else some s
  | none => some s

/-! ## Flow collections -/

/-- How many flow collections can be open. -/
def maxFlowDepth : Nat := 255

/-- Ends a mapping without braces in a flow sequence. -/
def closeBare (s : Layout) : Layout :=
  match s.bare with
  | true :: outer => { s with bare := false :: outer, marked := false }.emit .flowMappingEnd
  | _ => s

/-- The bracket or brace that opens a flow collection. -/
def openFlow? (sequence : Bool) (s : Layout) : Option Layout := do
  let s := s.saveKey.indent
  if maxFlowDepth ≤ s.outer.length then none
  let s := { s with outer := s.candidate :: s.outer, candidate := none, keyAllowed := true }
  let s := if sequence then { s with bare := false :: s.bare } else { s with marked := true }
  let s ← (s.skip 1).skipTail?
  some (s.emit (if sequence then .flowSequenceStart else .flowMappingStart))

/-- The bracket or brace that closes a flow collection. -/
def closeFlow? (sequence : Bool) (s : Layout) : Option Layout := do
  let s ← s.dropKey?
  let s := match s.outer with
    | candidate :: outer => { s with candidate, outer }
    | [] => s
  let s := s.allowKey false
  let s := if sequence then
      let s := s.closeBare
      { s with bare := s.bare.drop 1 }
    else s
  let s ← (s.skip 1).skipTail?
  let s := if s.inFlow then { s with adjacent := some s.place.index } else s
  some (s.emit (if sequence then .flowSequenceEnd else .flowMappingEnd))

/-- The comma between entries of a flow collection. -/
def addFlowEntry? (s : Layout) : Option Layout := do
  let s ← s.dropKey?
  let s ← ((s.allowKey true).closeBare.skip 1).skipTail?
  some (s.emit .flowEntry)

/-! ## Entries -/

/-- The hyphen before an entry of a block sequence. -/
def addBlockEntry? (s : Layout) : Option Layout := do
  if s.inFlow || !s.keyAllowed then none
  let s := (s.openBlock s.place.column s.tokens.size .blockSequenceStart).skip 1
  let blanks := s.place.rest.takeWhile isBlank
  let s ← s.skipTail?
  let s ← match s.place.rest with
    | [] => some s
    | c :: rest =>
      if c = '-' && isBreak rest && blanks.contains '\t' then none
      else if c = '\n' || isFlowMark c then some s.indent
      else some s
  let s ← s.dropKey?
  some ((s.allowKey true).emit .blockEntry)

/-- The question mark before a key, with the spaces, comments and line ends behind it. -/
def addKey? (s : Layout) : Option Layout := do
  if !s.inFlow && !s.keyAllowed then none
  let s := if s.inFlow then { s with marked := true }
    else s.openBlock s.place.column s.tokens.size .blockMappingStart
  let s ← s.dropKey?
  let s := (s.allowKey !s.inFlow).skip 1
  let next := s.place.skipSpaces (s.place.rest.length + 1)
  if next.index = s.place.index || next.rest.head? == some '\t' then none
  some ((s.moveTo next).emit .key)

/-- The blanks after a colon; after a tab without a space, no letter, digit or hyphen may follow. -/
def skipAfterColon? (s : Layout) : Option Layout :=
  match s.place.rest with
  | '\t' :: _ => do
    let spaced := (s.place.rest.takeWhile isBlank).contains ' '
    let s ← s.skipTail?
    let isWord (c : Char) : Bool := c.isAlphanum || c == '_' || c == '-'
    if !spaced && s.place.rest.head?.any isWord then none else some s
  | _ => some s

/-- The colon before a value, after a key that has been found by it or without one. -/
def addValue? (s : Layout) : Option Layout := do
  let colon := s.place
  let isBare := !s.bare.isEmpty && !s.marked
  let s := if isBare then { s with bare := true :: s.bare.drop 1 } else s
  let s ← (s.skip 1).skipAfterColon?
  let s ← match s.candidate with
    | some k =>
      if isBare && k.place.line < colon.line then none
      else
        let s := s.insert k.position .key
        let s := if isBare then s.insert k.position .flowMappingStart else s
        let s := (s.openBlock k.place.column k.position .blockMappingStart).indent
        some { s with candidate := none, keyAllowed := false }
    | none =>
      let s := if isBare then s.emit .flowMappingStart else s
      if s.inFlow then some (s.allowKey false)
      else if !s.keyAllowed then none
      else some (s.openBlock colon.column s.tokens.size .blockMappingStart).indent
  some (s.emit .value)

/-! ## Scalars -/

/-- A scalar without quotes. It can be a key, and it may begin where an entry of the innermost block
could. -/
def addPlain? (s : Layout) : Option Layout := do
  let s := (s.saveKey.allowKey false).unindent
  let least := match s.margins with
    | [] => 0
    | m :: _ => m.column + 1
  let (text, next) ← plain? s.inFlow least s.place
  some (((s.moveTo next).allowKey next.atMargin).emit (.plain text))

/-- Skips blanks, comments and line ends. After a line end a key can begin in a block. -/
def skipGap? (s : Layout) : Option Layout := do
  let next ← s.place.skipGap? s.margin (s.place.rest.length + 1)
  let allowed := s.keyAllowed || (!s.inFlow && s.place.line < next.line)
  some ((s.moveTo next).allowKey allowed)

/-- A scalar in quotes. It can be a key, and the colon after it needs no blank in a flow
collection. -/
def addQuoted? (quote : Char) (s : Layout) : Option Layout := do
  let s := s.saveKey.allowKey false
  let (text, next) ← quoted? quote s.inFlow s.margin s.place
  let s ← (s.moveTo next).skipGap?
  some ({ s with adjacent := some s.place.index }.emit (.quoted text))

/-! ## The whole text -/

/-- The mark at the start or at the end of a document. -/
def addDocumentMark? (ends : Bool) (s : Layout) : Option Layout := do
  let s ← (s.closeBlocks none).dropKey?
  let s := ((s.allowKey false).skip 3).emit (if ends then .documentEnd else .documentStart)
  if ends then
    let s ← s.skipTail?
    if s.place.atLineEnd then some s else none
  else some s

/-- Whether a colon before `rest` at the place is the mark before a value. -/
def isValueMark (s : Layout) (rest : List Char) : Bool :=
  isBreak rest || (s.inFlow && (isBeforeFlowMark rest || s.adjacent == some s.place.index))

/-- The token that begins with `c`. -/
def addToken? (c : Char) (rest : List Char) (s : Layout) : Option Layout :=
  match c with
  | '[' => s.openFlow? true
  | '\x7b' => s.openFlow? false
  | ']' => s.closeFlow? true
  | '\x7d' => s.closeFlow? false
  | ',' => s.addFlowEntry?
  | '-' => if isBreak rest then s.addBlockEntry? else s.addPlain?
  | '?' => if isBreak rest then s.addKey? else s.addPlain?
  | ':' => if s.isValueMark rest then s.addValue? else s.addPlain?
  | '\'' => s.addQuoted? c
  | '"' => s.addQuoted? c
  | '|' => if s.inFlow then s.addPlain? else none
  | '>' => if s.inFlow then s.addPlain? else none
  | _ => if ['*', '&', '!', '%', '@', '\x60'].contains c then none else s.addPlain?

/-- The tokens from a place on. Every round reads a character, so `limit` is more than their
count. -/
def finish? : (limit : Nat) → Layout → Option (List Token)
  | 0, _ => none
  | limit + 1, s => do
    let s ← s.skipGap?
    let s ← s.dropStaleKey?
    let s := s.closeBlocks (some s.place.column)
    match s.place.rest with
    | [] =>
      if (s.candidate :: s.outer).any fun k => k.any (·.required) then none
      else some (s.closeBlocks none).tokens.toList
    | c :: rest =>
      let atStart := s.place.column = 0
      if atStart && s.place.hasMark '-' then
        finish? limit (← s.addDocumentMark? false)
      else if atStart && s.place.hasMark '.' then
        finish? limit (← s.addDocumentMark? true)
      else if (atStart && c = '%') || s.place.column < s.margin then none
      else finish? limit (← s.addToken? c rest)

end Layout

/-- A text with line feeds for all line ends. -/
def normalizeLineEnds : List Char → List Char
  | '\r' :: '\n' :: rest => '\n' :: normalizeLineEnds rest
  | '\r' :: rest => '\n' :: normalizeLineEnds rest
  | c :: rest => c :: normalizeLineEnds rest
  | [] => []

/-- The tokens of a text, which ends at its first NUL. -/
def tokens? (text : String) : Option (List Token) :=
  let cs := normalizeLineEnds (text.toList.takeWhile (· != '\x00'))
  (Layout.start cs).finish? (cs.length + 2)

end NodeScript.Yaml
