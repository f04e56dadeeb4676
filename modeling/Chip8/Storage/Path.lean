/-!
# File paths

A path is a list of names.  Empty names and `.` are dropped when a path is read, so that
repeated and trailing slashes do not matter; `..` is kept, because what it names depends on
the directories that are there.
-/

namespace Chip8

/-- A file path: the slashes it starts with and its names. -/
structure Path where
  slashes : Nat
  names : List String
deriving DecidableEq

namespace Path

/-- The slashes that a path keeps at its start: two stay two, any other number is one. -/
def leadingSlashes (cs : List Char) : Nat :=
  match (cs.takeWhile (· == '/')).length with
  | 0 => 0
  | 2 => 2
  | _ => 1

/-- Reads a path. -/
def ofText (text : String) : Path where
  slashes := leadingSlashes text.toList
  names := (text.splitOn "/").filter fun name => name != "" && name != "."

/-- Writes a path; a path without names or slashes is `.`. -/
def text (path : Path) : String :=
  if path.slashes = 0 ∧ path.names = [] then "."
  else String.ofList (List.replicate path.slashes '/') ++ "/".intercalate path.names

/-- The last name of a path, empty if it has none. -/
def lastName (path : Path) : String :=
  path.names.getLast?.getD ""

end Path

end Chip8
