import NodeScript.Node.Cast
import NodeScript.Tree.Inspect

/-!
# Builders

A builder folds the tree of a rule into a knob, a node or the mark of a value. A tree of the wrong
shape is refused, and then the alternative that gave the tree counts as failed.
-/

namespace NodeScript

/-- What a builder is: one of those for the shipped grammar, or one that has been added. -/
inductive BuilderKind where
  | node
  | attribute
  | multiValue
  | animatedValue
  | added (name : String)
deriving DecidableEq

def BuilderKind.name : BuilderKind → String
  | .node => "node"
  | .attribute => "attribute"
  | .multiValue => "multi_value"
  | .animatedValue => "animated_value"
  | .added name => name

/-- What a tree lacks. -/
inductive MissingPart where
  | className
  | openingBrace
  | closingBrace
  | knobNameAndValue
  | channelValues
  | keyframes
  | other (words : String)
deriving DecidableEq

def MissingPart.words : MissingPart → String
  | .className => "class name"
  | .openingBrace => "opening brace"
  | .closingBrace => "closing brace"
  | .knobNameAndValue => "knob name and value"
  | .channelValues => "channel values"
  | .keyframes => "keyframes"
  | .other words => words

/-- What stands where a builder has no use for it. -/
inductive UnexpectedPart where
  | amongKnobs (t : Tree)
  | asKnobValue (t : Tree)
  | frameWithoutValue
  | other (words : String)

def UnexpectedPart.words : UnexpectedPart → String
  | .amongKnobs t => Inspect.tree t ++ " among knobs"
  | .asKnobValue t => Inspect.tree t ++ " as knob value"
  | .frameWithoutValue => "frame without a value"
  | .other words => words

/-- Why a builder refuses a tree. -/
inductive BuildError where
  | unexpectedShape (builder : BuilderKind) (part : UnexpectedPart)
  | missing (builder : BuilderKind) (part : MissingPart)
  | cast (e : CastError)

def BuildError.message : BuildError → String
  | .unexpectedShape builder part => builder.name ++ ": unexpected " ++ part.words
  | .missing builder part => builder.name ++ ": missing " ++ part.words
  | .cast e => e.message

/-- A builder is any function of trees. -/
structure Builder where
  kind : BuilderKind
  build : Tree → Except BuildError Tree

namespace Builder

def name (b : Builder) : String :=
  b.kind.name

mutual

/-- The knobs in a tree that stands among knobs. -/
def attributesOf : Tree → Except BuildError (List Attribute)
  | .attribute a => .ok [a]
  | .list items => attributesOfList items
  | t => .error (.unexpectedShape .node (.amongKnobs t))

/-- The knobs in a list of trees. -/
def attributesOfList : List Tree → Except BuildError (List Attribute)
  | [] => .ok []
  | t :: rest => do
    let first ← attributesOf t
    let others ← attributesOfList rest
    .ok (first ++ others)

end

/-- The knobs up to the closing brace, and what follows the brace. -/
def knobsUntilClose : List Tree → Except BuildError (List Attribute × List Tree)
  | [] => .error (.missing .node .closingBrace)
  | t :: rest =>
    let knobs : Except BuildError (List Attribute × List Tree) := do
      let first ← attributesOf t
      let (others, after) ← knobsUntilClose rest
      .ok (first ++ others, after)
    match t with
    | .token closing => if closing.text = "\x7d" then .ok ([], rest) else knobs
    | _ => knobs

/-- A class, knobs in braces and perhaps a stack command make a node. -/
def buildNode (t : Tree) : Except BuildError Tree :=
  match t.items with
  | .token className :: .token opening :: rest =>
    if opening.text = "\x7b" then do
      let (attributes, after) ← knobsUntilClose rest
      let words := (Tree.tokensList after).map Token.text
      .ok (.node ⟨className.text, attributes, Binding.ofWords? words⟩)
    else .error (.missing .node .openingBrace)
  | .token _ :: _ => .error (.missing .node .openingBrace)
  | _ => .error (.missing .node .className)

def castAll : List Token → Except CastError (List Scalar)
  | [] => .ok []
  | t :: rest => do
    let first ← t.cast
    let others ← castAll rest
    .ok (first :: others)

def castPairs : List (Token × Token) → Except CastError (List Keyframe)
  | [] => .ok []
  | (frame, value) :: rest => do
    let frame ← frame.castFrame
    let value ← value.cast
    let others ← castPairs rest
    .ok (⟨frame, value⟩ :: others)

/-- Whether two neighbouring texts of a block stand together without a space: after an opening
bracket and before a closing one. -/
def isTight (before after : String) : Bool :=
  before == "\x7b" || before == "[" || after == "\x7d" || after == "]"

/-- The texts of tokens joined as a script writes them. -/
def joinBlock : List String → String
  | [] => ""
  | [text] => text
  | first :: second :: rest =>
    first ++ (if isTight first second then "" else " ") ++ joinBlock (second :: rest)

/-- The value that the tree of a knob's value stands for. -/
def valueOf : Tree → Except BuildError Value
  | .token t => (t.cast.map Value.scalar).mapError .cast
  | .channels tokens => ((castAll tokens).map fun vs => .multi (.ofValues vs)).mapError .cast
  | .curve pairs => ((castPairs pairs).map fun ks => .animated ⟨ks⟩).mapError .cast
  | .list items => .ok (.block (joinBlock ((Tree.tokensList items).map Token.text)))
  | t => .error (.unexpectedShape .attribute (.asKnobValue t))

/-- A name and a value make a knob. -/
def buildAttribute (t : Tree) : Except BuildError Tree :=
  match t.items with
  | [.token name, value] => (valueOf value).map fun v => .attribute ⟨name.text, v⟩
  | _ => .error (.missing .attribute .knobNameAndValue)

/-- Whether two texts enclose the values of channels. -/
def areDelimiters (first last : String) : Bool :=
  (first == "\x7b" && last == "\x7d") || (first == "(" && last == ")")

/-- The tokens without a pair of delimiters around them. -/
def withoutDelimiters : List Token → List Token
  | first :: second :: rest =>
    if areDelimiters first.text ((second :: rest).getLast (by simp)).text then
      (second :: rest).dropLast
    else first :: second :: rest
  | tokens => tokens

/-- Values between delimiters make the mark of a value of several channels. -/
def buildMultiValue (t : Tree) : Except BuildError Tree :=
  match withoutDelimiters t.tokens with
  | [] => .error (.missing .multiValue .channelValues)
  | tokens => .ok (.channels tokens)

/-- Tokens in pairs; there must be an even number. -/
def pairUp? : List Token → Option (List (Token × Token))
  | [] => some []
  | [_] => none
  | frame :: value :: rest => (pairUp? rest).map ((frame, value) :: ·)

/-- Succeeds when every token is a frame. -/
def checkFrames : List (Token × Token) → Except CastError Unit
  | [] => .ok ()
  | (frame, _) :: rest => do
    let _ ← frame.castFrame
    checkFrames rest

/-- The tokens without the word that opens a curve. -/
def withoutCurveWord : List Token → List Token
  | first :: rest => if first.text = "curve" then rest else first :: rest
  | [] => []

/-- Frames and values in turn make the mark of a curve. Its frames are tested here, so that a bad
one rejects the reading as a curve and not the whole knob. -/
def buildAnimatedValue (t : Tree) : Except BuildError Tree :=
  let tokens := t.tokens.filter fun t => t.text != "\x7b" && t.text != "\x7d"
  match pairUp? (withoutCurveWord tokens) with
  | none => .error (.unexpectedShape .animatedValue .frameWithoutValue)
  | some [] => .error (.missing .animatedValue .keyframes)
  | some pairs =>
    match checkFrames pairs with
    | .ok () => .ok (.curve pairs)
    | .error e => .error (.cast e)

def node : Builder :=
  ⟨.node, buildNode⟩

def «attribute» : Builder :=
  ⟨.attribute, buildAttribute⟩

def multiValue : Builder :=
  ⟨.multiValue, buildMultiValue⟩

def animatedValue : Builder :=
  ⟨.animatedValue, buildAnimatedValue⟩

end Builder

/-- The builders attached to rules, by the names of the rules. -/
abbrev BuilderTable := OrderedTable Builder

namespace BuilderTable

def empty : BuilderTable :=
  OrderedTable.empty

/-- The builders of the node, knob and value rules of the shipped grammar. -/
def standard : BuilderTable :=
  OrderedTable.ofList [("node", .node), ("knob", .attribute), ("multi_value", .multiValue),
    ("animated_value", .animatedValue)]

/-- Runs the builder attached to a rule; the trees of other rules stay as they are. -/
def build (table : BuilderTable) (rule : String) (t : Tree) : Except BuildError Tree :=
  match table.get? rule with
  | some builder => builder.build t
  | none => .ok t

end BuilderTable

end NodeScript
