import NodeScript.Node.Value
import NodeScript.OrderedTable

/-!
# Nodes

A node has a class, knobs in the order they were written, and the stack command written right
after it.
-/

namespace NodeScript

/-- A knob of a node: a name and a value. -/
structure Attribute where
  name : String
  value : Value
deriving DecidableEq

/-- A stack command that binds a node to a variable. -/
inductive Binding where
  /-- The command `set NAME [stack INDEX]`. -/
  | assign (name : String) (index : UInt64)
  /-- The command `push $NAME`. -/
  | recall (name : String)
deriving DecidableEq

namespace Binding

/-- The variable that the command names. -/
def variableName : Binding → String
  | .assign name _ => name
  | .recall name => name

/-- The command as a script writes it. -/
def render : Binding → String
  | .assign name index => "set " ++ name ++ " [stack " ++ toString index.toNat ++ "]"
  | .recall name => "push $" ++ name

/-- The binding that the words of a stack command make. Other commands make none, and neither
does an index that is too large or negative. -/
def ofWords? : List String → Option Binding
  | ["set", name, "[", "stack", index, "]"] => (Decimal.readUInt64? index).map (.assign name)
  | ["push", "$", name] => some (.recall name)
  | _ => none

end Binding

structure Node where
  className : String
  attributes : List Attribute
  binding : Option Binding
deriving DecidableEq

namespace Node

/-- The knobs by name. A name written again holds the last value, at the place of that one. -/
def attributesByName (n : Node) : OrderedTable Value :=
  OrderedTable.ofList (n.attributes.map fun a => (a.name, a.value))

/-- The value of the last knob of a name. -/
def attribute? (n : Node) (name : String) : Option Value :=
  (n.attributes.reverse.find? (·.name == name)).map Attribute.value

/-- The text of the knob called `name`. -/
def name? (n : Node) : Option String :=
  (n.attribute? "name").bind fun v => v.asScalar?.bind Scalar.asText?

/-- Equality of nodes, where floating-point numbers are compared as numbers. -/
def same (a b : Node) : Bool :=
  a.className == b.className && a.binding == b.binding && sameAttributes a.attributes b.attributes
where
  sameAttributes : List Attribute → List Attribute → Bool
    | [], [] => true
    | a :: as, b :: bs => a.name == b.name && a.value.same b.value && sameAttributes as bs
    | _, _ => false

def sameList : List Node → List Node → Bool
  | [], [] => true
  | a :: as, b :: bs => a.same b && sameList as bs
  | _, _ => false

/-- The node as a script writes it. -/
def render (n : Node) : String :=
  n.className ++ " \x7b\n" ++ String.join (n.attributes.map renderAttribute) ++ "\x7d" ++
    (match n.binding with
    | some b => "\n" ++ b.render
    | none => "")
where
  renderAttribute (a : Attribute) : String :=
    " " ++ a.name ++ " " ++ a.value.render ++ "\n"

def renderScript (nodes : List Node) : String :=
  String.join (nodes.map fun n => n.render ++ "\n")

end Node

end NodeScript
