import NodeScript.Node.Value
import NodeScript.Token.Basic

/-!
# Casting tokens

The scalar or the frame that a token stands for, by the name of the row that produced it.
-/

namespace NodeScript

/-- What a number was wanted for. -/
inductive NumberKind where
  | float
  | integer
  | frame
deriving DecidableEq

def NumberKind.word : NumberKind → String
  | .float => "float"
  | .integer => "integer"
  | .frame => "frame"

/-- Why a token has no value. -/
inductive CastError where
  | invalidNumber (kind : NumberKind) (text : String)
  | fractionalFrame (text : String)
deriving DecidableEq

def CastError.message : CastError → String
  | .invalidNumber kind text => "Invalid " ++ kind.word ++ " literal '" ++ text ++ "'"
  | .fractionalFrame text => "Frame '" ++ text ++ "' is not a whole number"

namespace Token

/-- The floating-point number of a text, wanted as a number of the given kind. -/
def castFloat (kind : NumberKind) (text : String) : Except CastError Scalar :=
  match Binary64.read? text with
  | some x => .ok (.float x)
  | none => .error (.invalidNumber kind text)

/-- The scalar that a token stands for. A whole number past 64 bits becomes a floating-point
number. -/
def cast (t : Token) : Except CastError Scalar :=
  match t.name with
  | "FLOAT" => castFloat .float t.text
  | "INT" =>
    match Decimal.readInt64? t.text with
    | some i => .ok (.int i)
    | none => castFloat .integer t.text
  | "WORD" =>
    match Scalar.readBool? t.text with
    | some b => .ok (.bool b)
    | none => .ok (.text t.text)
  | "STRING" => .ok (.text (Scalar.unquote t.text))
  | _ => .ok (.text t.text)

/-- The text of a frame without the mark before its number. -/
def frameDigits (text : String) : String :=
  match text.toList with
  | 'x' :: rest => String.ofList rest
  | _ => text

/-- The frame that a token stands for: its number, read as a floating-point number, must be whole
and fit into 64 bits. -/
def castFrame (t : Token) : Except CastError Int64 :=
  match Binary64.read? (frameDigits t.text) with
  | none => .error (.invalidNumber .frame t.text)
  | some x =>
    match x.toInt? with
    | none => .error (.fractionalFrame t.text)
    | some i =>
      match Decimal.toInt64? i with
      | some frame => .ok frame
      | none => .error (.invalidNumber .frame t.text)

end Token

end NodeScript
