import NodeScript.Text.Quoted

/-!
# Files

What can go wrong when a file is read, and the ways to reach files. What reads files is stated over
a `FileSystem`, so that it can be followed over files held in memory.
-/

namespace NodeScript

inductive FileError where
  | notFound
  | notADirectory
  | isADirectory
  | denied
  | other (description : String)
deriving DecidableEq

namespace FileError

/-- The error as a record of its number, its kind and its description. -/
def inspect : FileError → String
  | .notFound => record "2" "NotFound" "No such file or directory"
  | .notADirectory => record "20" "NotADirectory" "Not a directory"
  | .isADirectory => record "21" "IsADirectory" "Is a directory"
  | .denied => record "13" "PermissionDenied" "Permission denied"
  | .other description => record "5" "Uncategorized" description
where
  record (code kind description : String) : String :=
    "Os \x7b code: " ++ code ++ ", kind: " ++ kind ++ ", message: " ++ Text.quoted description ++
      " \x7d"

def message : FileError → String
  | .notFound => "No such file or directory (os error 2)"
  | .notADirectory => "Not a directory (os error 20)"
  | .isADirectory => "Is a directory (os error 21)"
  | .denied => "Permission denied (os error 13)"
  | .other description => description

end FileError

/-- The ways to reach files in the monad `m`. -/
structure FileSystem (m : Type → Type) where
  read : String → m (Except FileError String)
  isPresent : String → m Bool
  isDirectory : String → m Bool
  /-- The names of what a directory holds. -/
  entries : String → m (List String)

end NodeScript
