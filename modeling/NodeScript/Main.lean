import NodeScript.CommandLine

/-!
# The program

The files, the standard input and the environment of the running program.
-/

namespace NodeScript

/-- The cause behind a failed reading of a file. -/
def FileError.ofError : IO.Error → FileError
  | .noFileOrDirectory .. => .notFound
  | .inappropriateType .. => .isADirectory
  | .permissionDenied .. => .denied
  | e => .other (toString e)

/-- The files of the running program. -/
def systemFiles : FileSystem IO where
  read path := do
    try
      return .ok (← IO.FS.readFile path)
    catch e =>
      if ← ((← IO.currentDir) / path).isDir then return .error .isADirectory
      return .error (.ofError e)
  isPresent path := do ((← IO.currentDir) / path).pathExists
  isDirectory path := do ((← IO.currentDir) / path).isDir
  entries path := do
    try
      return (← ((← IO.currentDir) / path).readDir).toList.map fun entry => entry.fileName
    catch _ =>
      return []

/-- What the program is run with, given the value of the variable that names more grammars. -/
def systemEnvironment (searchList : Option String) : CommandLine.Environment IO :=
  ⟨systemFiles, do (← IO.getStdin).readToEnd, (searchList.map Path.ofSearchList).getD []⟩

end NodeScript

def main (args : List String) : IO UInt32 := do
  let searchList ← IO.getEnv "NKGRAPH_GRAMMAR_PATH"
  let result ← NodeScript.CommandLine.run (NodeScript.systemEnvironment searchList) args
  IO.print result.stdout
  IO.eprint result.stderr
  return result.code.toUInt32
