import NodeScript.Json.Number

/-!
# Reading JSON

A reader of JSON texts. A record may name a field more than once; whether that is allowed is left
to who uses the record.
-/

namespace NodeScript.Json

def skipBlanks (cs : List Char) : List Char :=
  cs.dropWhile fun c => c == ' ' || c == '\n' || c == '\t' || c == '\r'

def hexValue? (c : Char) : Option Nat :=
  if c.isDigit then some (c.toNat - '0'.toNat)
  else if 'a' ≤ c ∧ c ≤ 'f' then some (c.toNat - 'a'.toNat + 10)
  else if 'A' ≤ c ∧ c ≤ 'F' then some (c.toNat - 'A'.toNat + 10)
  else none

/-- The number that four digits of base sixteen denote. -/
def hexUnit? (a b c d : Char) : Option Nat := do
  some (4096 * (← hexValue? a) + 256 * (← hexValue? b) + 16 * (← hexValue? c) + (← hexValue? d))

/-- The character that a single-letter escape denotes. -/
def escaped? (c : Char) : Option Char :=
  match c with
  | '"' => some '"'
  | '\\' => some '\\'
  | '/' => some '/'
  | 'b' => some '\x08'
  | 'f' => some '\x0c'
  | 'n' => some '\n'
  | 'r' => some '\r'
  | 't' => some '\t'
  | _ => none

/-- A piece of a text: a character, or a UTF-16 unit given by its number. -/
inductive Piece where
  | char (c : Char)
  | unit (n : Nat)

/-- The pieces of a text up to its closing quote, and what follows it. -/
def readPieces? : List Char → Option (List Piece × List Char)
  | [] => none
  | '"' :: rest => some ([], rest)
  | '\\' :: 'u' :: a :: b :: c :: d :: rest =>
    match hexUnit? a b c d, readPieces? rest with
    | some n, some (pieces, rest) => some (.unit n :: pieces, rest)
    | _, _ => none
  | '\\' :: c :: rest =>
    match escaped? c, readPieces? rest with
    | some x, some (pieces, rest) => some (.char x :: pieces, rest)
    | _, _ => none
  | c :: rest =>
    if c.toNat < 0x20 ∨ c = '\\' then none
    else (readPieces? rest).map fun (pieces, rest) => (.char c :: pieces, rest)

/-- Whether `n` is the first unit of a surrogate pair. -/
def isHighUnit (n : Nat) : Bool :=
  0xD800 ≤ n && n < 0xDC00

/-- Whether `n` is the second unit of a surrogate pair. -/
def isLowUnit (n : Nat) : Bool :=
  0xDC00 ≤ n && n < 0xE000

/-- The text of pieces; nothing when a unit is half a surrogate pair without its other half. -/
def joinPieces? : List Piece → Option (List Char)
  | [] => some []
  | .char c :: rest => (joinPieces? rest).map (c :: ·)
  | .unit high :: .unit low :: rest =>
    if isHighUnit high && isLowUnit low then
      let c := Char.ofNat (0x10000 + (high - 0xD800) * 0x400 + (low - 0xDC00))
      (joinPieces? rest).map (c :: ·)
    else if isHighUnit high || isLowUnit high then none
    else (joinPieces? (.unit low :: rest)).map (Char.ofNat high :: ·)
  | .unit n :: rest =>
    if isHighUnit n || isLowUnit n then none else (joinPieces? rest).map (Char.ofNat n :: ·)

/-- A text up to its closing quote, and what follows it. The text is missing when it holds half a
surrogate pair. -/
def readText? (cs : List Char) : Option (Option (List Char) × List Char) :=
  (readPieces? cs).map fun (pieces, rest) => (joinPieces? pieces, rest)

/-- The word at the start of a text, and what follows it. -/
def afterWord? (word : String) (cs : List Char) : Option (List Char) :=
  if word.toList.isPrefixOf cs then some (cs.drop word.length) else none

/-- A record of fields; a name without a value leaves the whole without one. -/
def ofFields (fields : List (Option String × Json)) : Json :=
  match fields.mapM fun (name, v) => name.map (·, v) with
  | some fields => .obj fields
  | none => .void

mutual

/-- A value, and what follows it. Two rounds at most are needed for a character, so `limit` is
twice their count. -/
def readValue? : (limit : Nat) → List Char → Option (Json × List Char)
  | 0, _ => none
  | limit + 1, cs =>
    match skipBlanks cs with
    | '"' :: rest =>
      (readText? rest).map fun (text, rest) =>
        (match text with
        | some cs => .str (String.ofList cs)
        | none => .void, rest)
    | '[' :: rest =>
      match skipBlanks rest with
      | ']' :: rest => some (.arr [], rest)
      | rest => readItems? limit [] rest
    | '\x7b' :: rest =>
      match skipBlanks rest with
      | '\x7d' :: rest => some (.obj [], rest)
      | rest => readFields? limit [] rest
    | 'n' :: rest => (afterWord? "ull" rest).map (.null, ·)
    | 't' :: rest => (afterWord? "rue" rest).map (.bool true, ·)
    | 'f' :: rest => (afterWord? "alse" rest).map (.bool false, ·)
    | cs => Number.read? cs

/-- The items of a list up to its closing bracket; `done` holds those before, latest first. -/
def readItems? : (limit : Nat) → (done : List Json) → List Char → Option (Json × List Char)
  | 0, _, _ => none
  | limit + 1, done, cs =>
    match readValue? limit cs with
    | none => none
    | some (v, rest) =>
      match skipBlanks rest with
      | ',' :: rest => readItems? limit (v :: done) rest
      | ']' :: rest => some (.arr (v :: done).reverse, rest)
      | _ => none

/-- The fields of a record up to its closing brace; `done` holds those before, latest first. -/
def readFields? : (limit : Nat) → (done : List (Option String × Json)) → List Char →
    Option (Json × List Char)
  | 0, _, _ => none
  | limit + 1, done, cs =>
    match skipBlanks cs with
    | '"' :: rest =>
      match readText? rest with
      | none => none
      | some (name, rest) =>
        match skipBlanks rest with
        | ':' :: rest =>
          match readValue? limit rest with
          | none => none
          | some (v, rest) =>
            let done := (name.map String.ofList, v) :: done
            match skipBlanks rest with
            | ',' :: rest => readFields? limit done rest
            | '\x7d' :: rest => some (ofFields done.reverse, rest)
            | _ => none
        | _ => none
    | _ => none

end

/-- The value that a text denotes, when it is JSON. -/
def read? (s : String) : Option Json :=
  match readValue? (2 * s.length + 2) s.toList with
  | some (v, rest) => if (skipBlanks rest).isEmpty then some v else none
  | none => none

end NodeScript.Json
