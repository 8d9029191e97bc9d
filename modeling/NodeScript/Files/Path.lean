import NodeScript.Text.Lines

/-!
# Paths

A path is a text of segments between slashes. Joining and cutting leave the segments as they are
written.
-/

namespace NodeScript.Path

def isAbsolute (path : String) : Bool :=
  path.toList.head? == some '/'

def endsInSlash (path : String) : Bool :=
  path.toList.getLast? == some '/'

/-- A path taken from inside a directory. An absolute path replaces the directory, and nothing
stands between an empty directory and the path. -/
def join (base path : String) : String :=
  if isAbsolute path || base.isEmpty then path
  else if endsInSlash base then base ++ path
  else base ++ "/" ++ path

/-- The texts between the slashes of a path. -/
def segments (path : String) : List String :=
  (Text.splitAt '/' path.toList).map String.ofList

/-- Whether a segment stands for the directory it is in. -/
def isIdle (segment : String) : Bool :=
  segment.isEmpty || segment == "."

/-- Segments, latest first, without idle ones before the first that counts; the first segment of
a path that does not begin at the root counts even when it is a point. -/
def trimIdle : List String → List String
  | [] => []
  | [first] => if first.isEmpty then [] else [first]
  | segment :: rest => if isIdle segment then trimIdle rest else segment :: rest

/-- The directory that a path is in; the empty path for a path without a directory. -/
def parent (path : String) : String :=
  if isAbsolute path then
    match ((segments path).drop 1).reverse.dropWhile isIdle with
    | [] => ""
    | _ :: before => "/" ++ String.intercalate "/" (before.dropWhile isIdle).reverse
  else
    match trimIdle (segments path).reverse with
    | [] => ""
    | _ :: before => String.intercalate "/" (trimIdle before).reverse

/-- The paths of a list with colons between them. Empty ones are dropped. -/
def ofSearchList (value : String) : List String :=
  ((Text.splitAt ':' value.toList).map String.ofList).filter (!·.isEmpty)

end NodeScript.Path
