import NodeScript.Files
import NodeScript.Files.Path

/-!
# Paths with wildcards

A pattern of paths is followed segment by segment. A segment without wildcards is looked up, one
with wildcards is compared with the names in a directory, and `**` goes through all directories
below. What matches is found in the order of names.
-/

namespace NodeScript

namespace Glob

/-- A part of a segment with wildcards. -/
inductive Symbol where
  | char (c : Char)
  | anyChar
  | anyText
  /-- A character in one of the ranges, or in none of them when `negated`. -/
  | oneOf (negated : Bool) (ranges : List (Char × Char))
deriving DecidableEq

inductive Segment where
  | symbols (symbols : List Symbol)
  /-- Any number of directories. -/
  | descend
deriving DecidableEq

/-- The ranges between the brackets of a pattern; a character alone is a range of its own. -/
def ranges : List Char → List (Char × Char)
  | low :: '-' :: high :: rest => (low, high) :: ranges rest
  | c :: rest => (c, c) :: ranges rest
  | [] => []

/-- The text between brackets, of one character at least, and what follows. The first character
never closes the bracket. -/
def untilBracket? : List Char → Option (List Char × List Char)
  | [] => none
  | first :: rest =>
    match rest.span (· != ']') with
    | (inner, _ :: after) => some (first :: inner, after)
    | (_, []) => none

/-- The symbols of a segment, each of one character at least, so that `limit` is their count. Two
stars are no symbol. -/
def readSymbols? : (limit : Nat) → List Char → Option (List Symbol)
  | _, [] => some []
  | 0, _ :: _ => none
  | limit + 1, c :: rest =>
    match c with
    | '?' => (readSymbols? limit rest).map (.anyChar :: ·)
    | '*' => if rest.head? = some '*' then none else (readSymbols? limit rest).map (.anyText :: ·)
    | '[' =>
      let (negated, inner) := match rest with
        | '!' :: inner => (true, inner)
        | _ => (false, rest)
      match untilBracket? inner with
      | some (inner, rest) => (readSymbols? limit rest).map (.oneOf negated (ranges inner) :: ·)
      | none => none
    | c => (readSymbols? limit rest).map (.char c :: ·)

/-- The segment that a text denotes. -/
def readSegment? (text : String) : Option Segment :=
  if text == "**" then some .descend
  else (readSymbols? text.length text.toList).map .symbols

def matchesName : List Symbol → List Char → Bool
  | [], name => name.isEmpty
  | .anyText :: symbols, name => matchesRest symbols name
  | symbol :: symbols, c :: rest =>
    (match symbol with
      | .char d => c == d
      | .anyChar => true
      | .anyText => true
      | .oneOf negated ranges => ranges.any (fun (low, high) => low ≤ c && c ≤ high) != negated) &&
      matchesName symbols rest
  | _ :: _, [] => false
where
  /-- Whether the symbols match the name from some place on. -/
  matchesRest (symbols : List Symbol) : List Char → Bool
    | [] => matchesName symbols []
    | c :: rest => matchesName symbols (c :: rest) || matchesRest symbols rest

/-- The character that a symbol stands for. -/
def Symbol.plain? : Symbol → Option Char
  | .char c => some c
  | _ => none

/-- The name of a segment without wildcards. -/
def plainName? (symbols : List Symbol) : Option String :=
  (symbols.mapM Symbol.plain?).map String.ofList

end Glob

structure PathPattern where
  absolute : Bool
  segments : List Glob.Segment
  directoriesOnly : Bool

namespace PathPattern

/-- The pattern that a text denotes. A slash at the end asks for directories. -/
def read? (text : String) : Option PathPattern :=
  let absolute := Path.isAbsolute text
  let parts := (Path.segments text).drop (if absolute then 1 else 0)
  let parts := if Path.endsInSlash text then parts.dropLast else parts
  (parts.mapM Glob.readSegment?).map fun segments => ⟨absolute, segments, Path.endsInSlash text⟩

/-- Whether a path is the current directory. -/
def isHere (path : String) : Bool :=
  path.toList.head? == some '.' && (Path.segments path).all Path.isIdle

/-- A name in a directory. The current directory leaves no trace in a path. -/
def child (path name : String) : String :=
  if isHere path then name else Path.join path name

def lastName (path : String) : String :=
  (Path.segments path).getLastD ""

def sortedEntries {m : Type → Type} [Monad m] (fs : FileSystem m) (path : String) :
    m (List String) := do
  return (← fs.entries path).mergeSort fun a b => decide (a ≤ b)

/-- The results of a step for each of a list, one after the other. -/
def collect {m : Type → Type} [Monad m] (step : String → m (List String)) :
    List String → m (List String)
  | [] => return []
  | path :: rest => do
    let first ← step path
    let others ← collect step rest
    return first ++ others

/-- A path at the end of the pattern. -/
def finish {m : Type → Type} [Monad m] (fs : FileSystem m) (directoriesOnly : Bool)
    (path : String) : m (List String) := do
  if directoriesOnly && !(← fs.isDirectory path) then return [] else return [path]

mutual

/-- The paths below a directory that match the segments. No path has more segments than `limit`. -/
def below {m : Type → Type} [Monad m] (fs : FileSystem m) (directoriesOnly : Bool) :
    (limit : Nat) → List Glob.Segment → (path : String) → m (List String)
  | 0, _, _ => return []
  | limit + 1, segments, path =>
    match segments with
    | [] => finish fs directoriesOnly path
    | .descend :: _ => do
      if ← fs.isDirectory path then
        collect (visit fs directoriesOnly limit segments)
          ((← sortedEntries fs path).map (child path))
      else return []
    | .symbols symbols :: rest =>
      match Glob.plainName? symbols with
      | some name => do
        let found ← if name == "." || name == ".." then fs.isDirectory path
          else fs.isPresent (child path name)
        if found then below fs directoriesOnly limit rest (child path name) else return []
      | none => do
        if ← fs.isDirectory path then
          let dots := ["..", "."].filter fun name =>
            symbols.head? == some (.char '.') && Glob.matchesName symbols name.toList
          let upward ← collect (below fs directoriesOnly limit rest) (dots.map (Path.join path))
          let inside ← collect (visit fs directoriesOnly limit segments)
            ((← sortedEntries fs path).map (child path))
          return upward ++ inside
        else return []

/-- The paths that match the segments, the first of which is compared with the last name of the
path. -/
def visit {m : Type → Type} [Monad m] (fs : FileSystem m) (directoriesOnly : Bool) :
    (limit : Nat) → List Glob.Segment → (path : String) → m (List String)
  | 0, _, _ => return []
  | limit + 1, segments, path =>
    match segments with
    | [] => return []
    | .descend :: _ => do
      let after := segments.dropWhile (· == .descend)
      let isDirectory ← fs.isDirectory path
      let here ←
        if after.isEmpty then pure (if isDirectory then [path] else [])
        else visit fs directoriesOnly limit after path
      let inside ←
        if isDirectory then
          collect (visit fs directoriesOnly limit (.descend :: after))
            ((← sortedEntries fs path).map (child path))
        else pure []
      return here ++ inside
    | .symbols symbols :: rest =>
      if Glob.matchesName symbols (lastName path).toList then
        match rest with
        | [] => finish fs directoriesOnly path
        | _ => below fs directoriesOnly limit rest path
      else return []

end

/-- How many segments a path may have, and a pattern besides. -/
def segmentLimit : Nat := 10000

def expand {m : Type → Type} [Monad m] (fs : FileSystem m) (p : PathPattern) : m (List String) :=
  below fs p.directoriesOnly segmentLimit p.segments (if p.absolute then "/" else ".")

end PathPattern

end NodeScript
