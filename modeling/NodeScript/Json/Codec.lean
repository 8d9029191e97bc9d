import NodeScript.Grammar.Diagnostics
import NodeScript.Json.Reader
import NodeScript.Tree.Basic

/-!
# Nodes and trees as JSON

The records that stand for nodes, trees and failures, and the reading of nodes from them. A record
is read from a JSON record with its fields in any order, each at most once and others skipped, or
from a list of all its fields in order.
-/

namespace NodeScript

/-- A scalar is its bare value. -/
def Scalar.toJson : Scalar → Json
  | .bool b => .bool b
  | .int i => .int i.toInt
  | .float x => .float x
  | .text s => .str s

def Json.ofOption : Option Json → Json
  | some v => v
  | none => .null

/-- A kind with its content. -/
def Json.tagged (kind : String) (content : Json) : Json :=
  .obj [("kind", .str kind), ("value", content)]

def Channel.toJson (c : Channel) : Json :=
  .obj [("name", .str c.name), ("value", .ofOption (c.value.map Scalar.toJson))]

def Keyframe.toJson (k : Keyframe) : Json :=
  .obj [("frame", .int k.frame.toInt), ("value", k.value.toJson)]

/-- A value has its kind beside it. -/
def Value.toJson : Value → Json
  | .scalar s => .tagged "scalar" s.toJson
  | .multi m => .tagged "multi_channel" (.obj [("channels", .arr (m.channels.map Channel.toJson))])
  | .animated c => .tagged "animated" (.obj [("keyframes", .arr (c.keyframes.map Keyframe.toJson))])
  | .block text => .tagged "block" (.str text)

def Attribute.toJson (a : Attribute) : Json :=
  .obj [("name", .str a.name), ("value", a.value.toJson)]

/-- A binding is a record with the command among its fields. -/
def Binding.toJson : Binding → Json
  | .assign name index =>
    .obj [("command", .str "assign"), ("variable_name", .str name),
      ("stack_index", .int index.toNat)]
  | .recall name => .obj [("command", .str "recall"), ("variable_name", .str name)]

def Node.toJson (n : Node) : Json :=
  .obj [("class_name", .str n.className), ("binding", .ofOption (n.binding.map Binding.toJson)),
    ("attributes", .arr (n.attributes.map Attribute.toJson))]

def Node.listToJson (nodes : List Node) : Json :=
  .arr (nodes.map Node.toJson)

def Token.toJson (t : Token) : Json :=
  .obj [("name", .str t.name), ("text", .str t.text), ("tag", .ofOption (t.tag.map Json.str)),
    ("span", .obj [("start", .int t.span.start), ("end", .int t.span.stop)])]

mutual

/-- A tree has its kind beside it. -/
def Tree.toJson : Tree → Json
  | .token t => .tagged "token" t.toJson
  | .list items => .tagged "list" (.arr (Tree.listToJson items))
  | .channels tokens => .tagged "multi_channel" (.arr (tokens.map Token.toJson))
  | .curve pairs =>
    .tagged "animated" (.arr (pairs.map fun (frame, value) => .arr [frame.toJson, value.toJson]))
  | .attribute a => .tagged "attribute" a.toJson
  | .node n => .tagged "node" n.toJson

def Tree.listToJson : List Tree → List Json
  | [] => []
  | t :: rest => t.toJson :: Tree.listToJson rest

end

def Failure.toJson (f : Failure) : Json :=
  .obj [("expected", .str f.expected), ("position", .int f.position),
    ("found", .ofOption (f.found.map Json.str)), ("remaining", .str f.remaining)]

namespace Json

/-- The fields of a record of the given names, each missing or there once. -/
def fields? (names : List String) : Json → Option (List (Option Json))
  | .obj fields =>
    names.mapM fun name =>
      match fields.filter (·.1 == name) with
      | [] => some none
      | [(_, v)] => some (some v)
      | _ => none
  | .arr items => if items.length = names.length then some (items.map some) else none
  | _ => none

def asText? : Json → Option String
  | .str s => some s
  | _ => none

/-- The items of the list that a value is. -/
def asList? : Json → Option (List Json)
  | .arr items => some items
  | _ => none

/-- The name of a kind: a text, or a record of that one name without content. -/
def asKind? : Json → Option String
  | .str s => some s
  | .obj [(name, .null)] => some name
  | _ => none

/-- Whether the first of two fields of a record comes before the second. -/
def comesBefore (first second : String) : Json → Bool
  | .obj fields =>
    (fields.find? fun (name, _) => name == first || name == second).any (·.1 == first)
  | _ => false

/-- How deep lists and records may stand in one another. -/
def nestingLimit : Nat := 127

/-- The kind and the content of a value that has its kind beside it, in a text where it stands
`outer` levels deep. A content before its kind has to be kept, and so must be sound. -/
def asTagged? (outer : Nat) (v : Json) : Option (String × Json) :=
  match v.fields? ["kind", "value"] with
  | some [some kind, some content] =>
    if v.comesBefore "value" "kind" && !content.isSoundWithin (nestingLimit - outer - 1) then none
    else kind.asKind?.map (·, content)
  | _ => none

end Json

/-- A signed whole number of 64 bits. -/
def Json.asInt64? : Json → Option Int64
  | .int i => Decimal.toInt64? i
  | _ => none

/-- A whole number of 64 bits. -/
def Json.asUInt64? : Json → Option UInt64
  | .int i => Decimal.toUInt64? i
  | _ => none

/-- The scalar that a bare value is. A whole number past 64 bits is a floating-point number. -/
def Scalar.ofJson? : Json → Option Scalar
  | .bool b => some (.bool b)
  | .int i =>
    match (Json.int i).asInt64? with
    | some i => some (.int i)
    | none => some (.float (.ofInt i))
  | .float x => some (.float x)
  | .str s => some (.text s)
  | _ => none

/-- What a reader makes of a value that may be missing or null. -/
def Json.optional? {α : Type} (read : Json → Option α) : Option Json → Option (Option α)
  | none => some none
  | some .null => some none
  | some v => (read v).map some

def Channel.ofJson? (v : Json) : Option Channel :=
  match v.fields? ["name", "value"] with
  | some [some name, value] => do
    let name ← name.asText?
    let value ← Json.optional? Scalar.ofJson? value
    some ⟨name, value⟩
  | _ => none

def Keyframe.ofJson? (v : Json) : Option Keyframe :=
  match v.fields? ["frame", "value"] with
  | some [some frame, some value] => do
    let frame ← frame.asInt64?
    let value ← Scalar.ofJson? value
    some ⟨frame, value⟩
  | _ => none

/-- The items of the list that is the only field of a record. -/
def Json.onlyList? {α : Type} (name : String) (read : Json → Option α) (v : Json) :
    Option (List α) :=
  match v.fields? [name] with
  | some [some items] => items.asList?.bind (·.mapM read)
  | _ => none

/-- The value of a kind and a content. It stands in a knob of a list of knobs of a node of a
list. -/
def Value.ofJson? (v : Json) : Option Value :=
  match v.asTagged? 4 with
  | some ("scalar", content) => (Scalar.ofJson? content).map .scalar
  | some ("multi_channel", content) =>
    (content.onlyList? "channels" Channel.ofJson?).map fun cs => .multi ⟨cs⟩
  | some ("animated", content) =>
    (content.onlyList? "keyframes" Keyframe.ofJson?).map fun ks => .animated ⟨ks⟩
  | some ("block", content) => content.asText?.map .block
  | _ => none

def Attribute.ofJson? (v : Json) : Option Attribute :=
  match v.fields? ["name", "value"] with
  | some [some name, some value] => do
    let name ← name.asText?
    let value ← Value.ofJson? value
    some ⟨name, value⟩
  | _ => none

/-- The command of a binding and the record without it. -/
def Binding.commandOf? : Json → Option (String × Json)
  | .obj fields =>
    match fields.filter (·.1 == "command") with
    | [(_, .str command)] => some (command, .obj (fields.filter (·.1 != "command")))
    | _ => none
  | .arr (.str command :: rest) => some (command, .arr rest)
  | _ => none

/-- The binding of a record. It stands in a node of a list. Its fields have to be kept until the
command among them is found, and so must be sound. -/
def Binding.ofJson? (v : Json) : Option Binding :=
  if !v.isSoundWithin (Json.nestingLimit - 2) then none
  else match Binding.commandOf? v with
    | some ("assign", v) =>
      match v.fields? ["variable_name", "stack_index"] with
      | some [some name, some index] => do
        let name ← name.asText?
        let index ← index.asUInt64?
        some (.assign name index)
      | _ => none
    | some ("recall", v) =>
      match v.fields? ["variable_name"] with
      | some [some name] => name.asText?.map .recall
      | _ => none
    | _ => none

/-- The node of a record. Its binding may be missing. -/
def Node.ofJson? (v : Json) : Option Node :=
  match v.fields? ["class_name", "binding", "attributes"] with
  | some [some className, binding, some attributes] => do
    let className ← className.asText?
    let binding ← Json.optional? Binding.ofJson? binding
    let attributes ← attributes.asList?.bind (·.mapM Attribute.ofJson?)
    some ⟨className, attributes, binding⟩
  | _ => none

def Node.readJson? (s : String) : Option (List Node) :=
  (Json.read? s).bind fun v => v.asList?.bind (·.mapM Node.ofJson?)

end NodeScript
