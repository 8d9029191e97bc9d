import NodeScript.Node.Basic
import NodeScript.Token.Basic

/-!
# Result trees

What a grammar makes of tokens: the tokens themselves in nested lists, and what builders fold
them into.
-/

namespace NodeScript

/-- The result of matching a grammar. -/
inductive Tree where
  | token (t : Token)
  | list (items : List Tree)
  /-- The tokens of the values of several channels. -/
  | channels (tokens : List Token)
  /-- The tokens of the frames and values of a curve. -/
  | curve (pairs : List (Token × Token))
  | attribute (a : Attribute)
  | node (n : Node)

namespace Tree

/-- The tree without the lists of one item around it. -/
def flatten : Tree → Tree
  | .list [item] => item.flatten
  | t => t

/-- The items of a list; any other tree is its own only item. -/
def items : Tree → List Tree
  | .list items => items
  | t => [t]

mutual

/-- The tokens of a tree, from left to right. What has been folded into knobs and nodes has no
tokens any more. -/
def tokens : Tree → List Token
  | .token t => [t]
  | .list items => tokensList items
  | .channels tokens => tokens
  | .curve pairs => pairs.flatMap fun (frame, value) => [frame, value]
  | .attribute _ => []
  | .node _ => []

def tokensList : List Tree → List Token
  | [] => []
  | t :: rest => t.tokens ++ tokensList rest

end

@[simp] theorem tokens_flatten (t : Tree) : t.flatten.tokens = t.tokens := by
  fun_induction flatten t with
  | case1 item ih => simp [ih, tokens, tokensList]
  | case2 t _ => rfl

theorem tokensList_eq_flatMap (ts : List Tree) : tokensList ts = ts.flatMap tokens := by
  induction ts with
  | nil => rfl
  | cons t ts ih => simp [tokensList, ih]

@[simp] theorem tokens_token (t : Token) : (Tree.token t).tokens = [t] := by
  rw [tokens]

@[simp] theorem tokens_list (ts : List Tree) : (Tree.list ts).tokens = ts.flatMap tokens := by
  rw [tokens, tokensList_eq_flatMap]

mutual

/-- The nodes of a tree, from left to right. -/
def nodes : Tree → List Node
  | .node n => [n]
  | .list items => nodesList items
  | _ => []

def nodesList : List Tree → List Node
  | [] => []
  | t :: rest => t.nodes ++ nodesList rest

end

@[simp] theorem nodes_flatten (t : Tree) : t.flatten.nodes = t.nodes := by
  fun_induction flatten t with
  | case1 item ih => simp [ih, nodes, nodesList]
  | case2 t _ => rfl

theorem nodesList_eq_flatMap (ts : List Tree) : nodesList ts = ts.flatMap nodes := by
  induction ts with
  | nil => rfl
  | cons t ts ih => simp [nodesList, ih]

/-- The lines of a node in a rendered tree. -/
def renderNode (padding : String) (n : Node) : String :=
  padding ++ "node " ++ n.className ++ "\n" ++
    String.join (n.attributes.map fun a =>
      padding ++ "  " ++ a.name ++ " = " ++ a.value.render ++ "\n") ++
    (match n.binding with
    | some b => padding ++ "  (" ++ b.render ++ ")\n"
    | none => "")

mutual

/-- The tree with a line for each item, every level indented by two more spaces. -/
def renderAt (padding : String) : Tree → String
  | .token t => padding ++ t.render ++ "\n"
  | .list items =>
    padding ++ "[" ++ toString items.length ++ "]\n" ++ renderList (padding ++ "  ") items
  | .channels tokens =>
    padding ++ "multichannel " ++ String.intercalate " " (tokens.map Token.text) ++ "\n"
  | .curve pairs =>
    padding ++ "animated " ++
      String.intercalate " " (pairs.map fun (frame, value) => frame.text ++ ":" ++ value.text) ++
      "\n"
  | .attribute a => padding ++ a.name ++ " = " ++ a.value.render ++ "\n"
  | .node n => renderNode padding n

def renderList (padding : String) : List Tree → String
  | [] => ""
  | t :: rest => t.renderAt padding ++ renderList padding rest

end

/-- The tree with a line for each item. -/
def render (t : Tree) : String :=
  t.renderAt ""

end Tree

end NodeScript
