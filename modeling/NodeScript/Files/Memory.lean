import NodeScript.Files
import NodeScript.Files.Path

/-!
# Files in memory

A working directory given by the paths and texts of the files below it. Every directory on the way
to a file is there too. Outside the working directory there are directories but nothing in them.
-/

namespace NodeScript

/-- Files with their paths below the working directory. -/
structure MemoryFiles where
  files : List (List String × String)

namespace MemoryFiles

/-- The files of a list of paths and texts. -/
def ofList (files : List (String × String)) : MemoryFiles :=
  ⟨files.map fun (path, text) => (Path.segments path, text)⟩

/-- What a path can lead to. -/
inductive Place where
  | directory (names : List String)
  /-- A directory outside the working directory. -/
  | outside
  | file (text : String)

/-- What is at the end of the given names, when there is anything. -/
def at? (m : MemoryFiles) (names : List String) : Option Place :=
  match m.files.lookup names with
  | some text => some (.file text)
  | none =>
    if names.isEmpty || m.files.any (fun (path, _) => names.isPrefixOf path) then
      some (.directory names)
    else none

/-- Follows one segment of a path. Only a directory can be gone on from. -/
def step (m : MemoryFiles) (place : Place) (segment : String) : Except FileError Place :=
  match place with
  | .file _ => .error .notADirectory
  | .outside =>
    if Path.isIdle segment || segment == ".." then .ok .outside else .error .notFound
  | .directory names =>
    if Path.isIdle segment then .ok place
    else if segment == ".." then
      .ok (if names.isEmpty then .outside else .directory names.dropLast)
    else match m.at? (names ++ [segment]) with
      | some next => .ok next
      | none => .error .notFound

def follow (m : MemoryFiles) (path : String) : Except FileError Place :=
  if path.isEmpty then .error .notFound
  else
    let start : Place := if Path.isAbsolute path then .outside else .directory []
    (Path.segments path).foldlM m.step start

def read (m : MemoryFiles) (path : String) : Except FileError String :=
  match m.follow path with
  | .ok (.file text) => .ok text
  | .ok _ => .error .isADirectory
  | .error e => .error e

def isPresent (m : MemoryFiles) (path : String) : Bool :=
  match m.follow path with
  | .ok _ => true
  | .error _ => false

def isDirectory (m : MemoryFiles) (path : String) : Bool :=
  match m.follow path with
  | .ok (.file _) => false
  | .ok _ => true
  | .error _ => false

/-- The names of what a directory holds, each once. -/
def entries (m : MemoryFiles) (path : String) : List String :=
  match m.follow path with
  | .ok (.directory names) =>
    (m.files.filterMap fun (file, _) =>
      if names.isPrefixOf file then (file.drop names.length).head? else none).eraseDups
  | _ => []

/-- The ways to reach the files. -/
def fileSystem (m : MemoryFiles) : FileSystem Id :=
  ⟨m.read, m.isPresent, m.isDirectory, m.entries⟩

end MemoryFiles

end NodeScript
