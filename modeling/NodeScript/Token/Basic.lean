import NodeScript.Text.Quoted

/-!
# Tokens

A token is a piece of a script with the name of the table row that cut it out. Positions count
the bytes of the script in UTF-8.
-/

namespace NodeScript

/-- How many bytes a text takes in UTF-8. -/
def Text.byteLength : List Char → Nat
  | [] => 0
  | c :: rest => c.utf8Size + byteLength rest

@[simp] theorem Text.byteLength_nil : byteLength [] = 0 := rfl

@[simp] theorem Text.byteLength_cons (c : Char) (rest : List Char) :
    byteLength (c :: rest) = c.utf8Size + byteLength rest := rfl

@[simp] theorem Text.byteLength_append (cs ds : List Char) :
    byteLength (cs ++ ds) = byteLength cs + byteLength ds := by
  induction cs with
  | nil => simp
  | cons c rest ih => simp [ih, Nat.add_assoc]

/-- The text after its first `n` bytes, when they end between characters. -/
def Text.dropBytes? : Nat → List Char → Option (List Char)
  | 0, cs => some cs
  | _ + 1, [] => none
  | n + 1, c :: rest => if c.utf8Size ≤ n + 1 then dropBytes? (n + 1 - c.utf8Size) rest else none

/-- The first `n` bytes of a text, when they end between characters. -/
def Text.takeBytes? : Nat → List Char → Option (List Char)
  | 0, _ => some []
  | _ + 1, [] => none
  | n + 1, c :: rest =>
    if c.utf8Size ≤ n + 1 then (takeBytes? (n + 1 - c.utf8Size) rest).map (c :: ·) else none

/-- A range of bytes in a script. -/
structure Span where
  start : Nat
  stop : Nat
deriving DecidableEq

namespace Span

/-- The least span that covers both. -/
def merge (a b : Span) : Span :=
  ⟨min a.start b.start, max a.stop b.stop⟩

/-- The part of a script that the span covers, when it begins and ends between characters. -/
def text? (s : Span) (source : String) : Option String :=
  if s.start ≤ s.stop then
    (Text.dropBytes? s.start source.toList).bind fun rest =>
      (Text.takeBytes? (s.stop - s.start) rest).map String.ofList
  else none

end Span

structure Token where
  /-- The name of the row that produced the token. -/
  name : String
  text : String
  tag : Option String
  span : Span
deriving DecidableEq

namespace Token

/-- The tag of tokens that mean nothing to a grammar. -/
def ignorableTag : String := "IGNORE"

/-- Whether a grammar never sees the token. -/
def isIgnorable (t : Token) : Bool :=
  t.tag == some ignorableTag

/-- The tokens that a grammar sees. -/
def significant (tokens : List Token) : List Token :=
  tokens.filter (!·.isIgnorable)

/-- The token's name and, in quotes, its text. -/
def render (t : Token) : String :=
  t.name ++ "(" ++ Text.quoted t.text ++ ")"

/-- What messages show at the end of the tokens. -/
def endOfInput : String := "<end of input>"

/-- The texts of the first tokens, at most `limit` of them, and a sign that there are more. -/
def preview (tokens : List Token) (limit : Nat) : String :=
  let shown := (tokens.take limit).map Token.text ++
    (if (tokens.drop limit).isEmpty then [] else ["..."])
  if shown.isEmpty then endOfInput else String.intercalate " " shown

end Token

end NodeScript
