import NodeScript.Tree.Basic

/-!
# Trees in messages

The one-line form in which messages show a tree: records with named fields in braces,
alternatives with their content in parentheses, lists in brackets.
-/

namespace NodeScript.Inspect

def record (name : String) (fields : List (String × String)) : String :=
  name ++ " \x7b " ++
    String.intercalate ", " (fields.map fun (field, value) => field ++ ": " ++ value) ++ " \x7d"

def tagged (name content : String) : String :=
  name ++ "(" ++ content ++ ")"

def list (items : List String) : String :=
  "[" ++ String.intercalate ", " items ++ "]"

def optional : Option String → String
  | some content => tagged "Some" content
  | none => "None"

def span (s : Span) : String :=
  record "Span" [("start", toString s.start), ("end", toString s.stop)]

def token (t : Token) : String :=
  record "Token" [("name", Text.quoted t.name), ("text", Text.quoted t.text),
    ("tag", optional (t.tag.map Text.quoted)), ("span", span t.span)]

def scalar : Scalar → String
  | .bool b => tagged "Bool" (if b then "true" else "false")
  | .int i => tagged "Int" (toString i.toInt)
  | .float x => tagged "Float" x.render
  | .text s => tagged "Text" (Text.quoted s)

def channel (c : Channel) : String :=
  record "Channel" [("name", Text.quoted c.name), ("value", optional (c.value.map scalar))]

def keyframe (k : Keyframe) : String :=
  record "Keyframe" [("frame", toString k.frame.toInt), ("value", scalar k.value)]

def value : Value → String
  | .scalar s => tagged "Scalar" (scalar s)
  | .multi m =>
    tagged "MultiChannel" (record "MultiChannel" [("channels", list (m.channels.map channel))])
  | .animated c =>
    tagged "Animated" (record "AnimatedCurve" [("keyframes", list (c.keyframes.map keyframe))])
  | .block text => tagged "Block" (Text.quoted text)

def knob (a : Attribute) : String :=
  record "Attribute" [("name", Text.quoted a.name), ("value", value a.value)]

def binding : Binding → String
  | .assign name index =>
    record "Assign" [("variable_name", Text.quoted name), ("stack_index", toString index.toNat)]
  | .recall name => record "Recall" [("variable_name", Text.quoted name)]

def node (n : Node) : String :=
  record "Node" [("class_name", Text.quoted n.className),
    ("binding", optional (n.binding.map binding)),
    ("attributes", list (n.attributes.map knob))]

mutual

def tree : Tree → String
  | .token t => tagged "Token" (token t)
  | .list items => tagged "List" (list (trees items))
  | .channels tokens => tagged "MultiChannel" (list (tokens.map token))
  | .curve pairs =>
    tagged "Animated" (list (pairs.map fun (frame, value) =>
      "(" ++ token frame ++ ", " ++ token value ++ ")"))
  | .attribute a => tagged "Attribute" (knob a)
  | .node n => tagged "Node" (node n)

def trees : List Tree → List String
  | [] => []
  | t :: rest => tree t :: trees rest

end

end NodeScript.Inspect
