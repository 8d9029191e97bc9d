import Mathlib.Data.List.Forall2
import NodeScript.Proofs.Token.Table
import NodeScript.Tree.Builder

/-!
# The syntax of scripts

The tokens of a script in the pieces that they make: statements, blocks with knobs, values, stack
commands. A piece keeps its tokens, so that the tokens of a script can be put together again, and
has the meaning that a node takes from it.
-/

namespace NodeScript.Script

/-! ## Tokens -/

/-- A token with a given text. -/
def isText (text : String) (t : Token) : Bool :=
  t.text == text

/-- A token whose text is a word. -/
def isWord (t : Token) : Bool :=
  TokenTable.script.admits "WORD" t

/-- A token whose text is a number with a fraction or an exponent. -/
def isFloat (t : Token) : Bool :=
  TokenTable.script.admits "FLOAT" t

/-- A token whose text is a whole number. -/
def isInt (t : Token) : Bool :=
  TokenTable.script.admits "INT" t

/-- A token whose text is between quotes. -/
def isString (t : Token) : Bool :=
  TokenTable.script.admits "STRING" t

/-- A token whose text is a frame. -/
def isFrame (t : Token) : Bool :=
  TokenTable.script.admits "FRAME" t

/-- A token whose text is a number. -/
def isNumber (t : Token) : Bool :=
  isFloat t || isInt t

/-- A token whose text is a scalar. -/
def isScalar (t : Token) : Bool :=
  isFloat t || isInt t || isString t || isWord t

/-! ## Values -/

/-- A frame and the number at it. -/
structure KeyframeText where
  frame : Token
  number : Token

namespace KeyframeText

def tokens (k : KeyframeText) : List Token :=
  [k.frame, k.number]

structure WellFormed (k : KeyframeText) : Prop where
  frame : isFrame k.frame
  number : isNumber k.number

end KeyframeText

/-- The word `curve` and keyframes, in braces. -/
structure CurveText where
  opening : Token
  word : Token
  keyframes : List KeyframeText
  closing : Token

namespace CurveText

def tokens (c : CurveText) : List Token :=
  c.opening :: c.word :: c.keyframes.flatMap KeyframeText.tokens ++ [c.closing]

structure WellFormed (c : CurveText) : Prop where
  opening : c.opening.text = "\x7b"
  word : c.word.text = "curve"
  keyframes : ∀ k ∈ c.keyframes, k.WellFormed
  keyframes_ne : c.keyframes ≠ []
  closing : c.closing.text = "\x7d"

/-- The frames with their numbers. -/
def pairs (c : CurveText) : List (Token × Token) :=
  c.keyframes.map fun k => (k.frame, k.number)

/-- Every frame is a whole number of 64 bits. -/
def FramesCast (c : CurveText) : Prop :=
  ∀ k ∈ c.keyframes, k.frame.castFrame.isOk

end CurveText

/-- What stands as the value of a knob. -/
inductive ValueText where
  | single (t : Token)
  /-- Scalars in braces or parentheses. -/
  | run (opening : Token) (items : List Token) (closing : Token)
  | curve (c : CurveText)
  /-- A curve in one more pair of braces. -/
  | wrapped (opening : Token) (c : CurveText) (closing : Token)

namespace ValueText

def tokens : ValueText → List Token
  | .single t => [t]
  | .run opening items closing => opening :: items ++ [closing]
  | .curve c => c.tokens
  | .wrapped opening c closing => opening :: c.tokens ++ [closing]

/-- The tokens can be read as a curve. -/
def IsCurve (ts : List Token) : Prop :=
  ∃ c : CurveText, c.WellFormed ∧ c.FramesCast ∧ ts = c.tokens

/-- A run is in delimiters that belong together, and is no curve. -/
def WellFormed : ValueText → Prop
  | .single t => isScalar t
  | .run opening items closing => Builder.areDelimiters opening.text closing.text ∧ items ≠ [] ∧
      (∀ t ∈ items, isScalar t) ∧ ¬IsCurve (opening :: items ++ [closing])
  | .curve c => c.WellFormed ∧ c.FramesCast
  | .wrapped opening c closing =>
      opening.text = "\x7b" ∧ c.WellFormed ∧ c.FramesCast ∧ closing.text = "\x7d"

/-- The value that the tokens stand for. -/
def value : ValueText → Except CastError Value
  | .single t => t.cast.map .scalar
  | .run _ items _ => (Builder.castAll items).map fun vs => .multi (.ofValues vs)
  | .curve c => (Builder.castPairs c.pairs).map fun ks => .animated ⟨ks⟩
  | .wrapped _ c _ => (Builder.castPairs c.pairs).map fun ks => .animated ⟨ks⟩

end ValueText

/-! ## Knobs and blocks -/

/-- A name and a value. -/
structure KnobText where
  name : Token
  value : ValueText

namespace KnobText

def tokens (k : KnobText) : List Token :=
  k.name :: k.value.tokens

/-- The knob that the tokens stand for. -/
def knob (k : KnobText) : Except CastError Attribute :=
  k.value.value.map (⟨k.name.text, ·⟩)

structure WellFormed (k : KnobText) : Prop where
  name : isWord k.name
  value : k.value.WellFormed
  casts : k.knob.isOk

end KnobText

/-- The ways to write a stack command, in the order in which they are tried. -/
def commandForms : List (List (Token → Bool)) := [
  [isText "set", isWord, isText "[", isText "stack", isInt, isText "]"],
  [isText "push", isText "$", isWord],
  [isText "push", isInt],
  [isText "version", isFloat, isWord],
  [isText "version", isFloat]]

/-- The tokens of a stack command. -/
def IsCommand (ts : List Token) : Prop :=
  ∃ form ∈ commandForms, List.Forall₂ (fun test t => test t = true) form ts

/-- The tokens of a stack command that does not go on in what follows. -/
structure IsWholeCommand (ts rest : List Token) : Prop where
  command : IsCommand ts
  longest : ∀ ts', IsCommand ts' → ts' <+: ts ++ rest → ts' <+: ts

/-- A class, knobs in braces, and the stack command after it when there is one. -/
structure BlockText where
  className : Token
  opening : Token
  knobs : List KnobText
  closing : Token
  command : Option (List Token)

namespace BlockText

def tokens (b : BlockText) : List Token :=
  b.className :: b.opening :: b.knobs.flatMap KnobText.tokens ++ b.closing :: b.command.getD []

/-- The pieces are as they should be, and a block without a stack command is followed by none. -/
structure WellFormed (b : BlockText) (rest : List Token) : Prop where
  className : isWord b.className
  opening : b.opening.text = "\x7b"
  knobs : ∀ k ∈ b.knobs, k.WellFormed
  closing : b.closing.text = "\x7d"
  command : ∀ ts ∈ b.command, IsWholeCommand ts rest
  alone : b.command = none → ∀ ts, IsCommand ts → ¬ts <+: rest

/-- The node that a block stands for. -/
structure Denotes (b : BlockText) (n : Node) : Prop where
  className : n.className = b.className.text
  attributes : List.Forall₂ (fun k a => k.knob = .ok a) b.knobs n.attributes
  binding : n.binding = b.command.bind fun ts => Binding.ofWords? (ts.map Token.text)

end BlockText

/-- A block or a stack command of its own. -/
inductive Statement where
  | block (b : BlockText)
  | command (ts : List Token)

namespace Statement

def tokens : Statement → List Token
  | .block b => b.tokens
  | .command ts => ts

/-- The statement is as it should be when followed by other tokens. -/
def WellFormed : Statement → List Token → Prop
  | .block b, rest => b.WellFormed rest
  | .command ts, rest => IsWholeCommand ts rest

/-- The block of a statement that is one. -/
def block? : Statement → Option BlockText
  | .block b => some b
  | .command _ => none

end Statement

/-- The tokens of statements that follow one another. -/
def tokensOf (statements : List Statement) : List Token :=
  statements.flatMap Statement.tokens

/-- The blocks among statements, in order. -/
def blocksOf (statements : List Statement) : List BlockText :=
  statements.filterMap Statement.block?

/-- Every statement is as it should be, given those that follow. -/
def WellFormed : List Statement → Prop
  | [] => True
  | s :: rest => s.WellFormed (tokensOf rest) ∧ WellFormed rest

end NodeScript.Script
