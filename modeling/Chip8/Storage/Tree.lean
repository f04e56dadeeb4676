import Chip8.Storage.Path

/-!
# File trees

A tree of directories and files, and the walk that reads a file in it.  The walk starts in
the top directory and takes one name at a time; a name that is not in its directory, a name
below a file, a path that ends in a directory, and a name or a path that is too long are the
ways to fail.
-/

namespace Chip8

/-- Why a file cannot be read. -/
inductive FileFault where
  | notFound
  | notADirectory
  | isADirectory
  | nameTooLong
deriving DecidableEq

namespace FileFault

/-- The system's number of the cause. -/
def code : FileFault → Nat
  | notFound => 2
  | notADirectory => 20
  | isADirectory => 21
  | nameTooLong => 36

/-- The system's text of the cause. -/
def text : FileFault → String
  | notFound => "No such file or directory"
  | notADirectory => "Not a directory"
  | isADirectory => "Is a directory"
  | nameTooLong => "File name too long"

end FileFault

/-- Files with their contents and further directories, by the names that lead to them. -/
structure Tree where
  files : List (List String × List UInt8)
  directories : List (List String)

namespace Tree

/-- The tree given by the texts of its paths. -/
def ofTexts (files : List (String × List UInt8)) (directories : List String) : Tree where
  files := files.map fun file => ((Path.ofText file.1).names, file.2)
  directories := directories.map fun directory => (Path.ofText directory).names

def file? (tree : Tree) (place : List String) : Option (List UInt8) :=
  tree.files.lookup place

/-- A place is a directory if it is listed or if something lies below it. -/
def isDirectory (tree : Tree) (place : List String) : Bool :=
  tree.directories.contains place ||
    (tree.directories ++ tree.files.map Prod.fst).any fun known =>
      place.isPrefixOf known && known != place

/-- Where a walk stands: in a directory of the tree, or in a directory outside it. -/
inductive Place where
  | inside (names : List String)
  | outside

/-- The most bytes of a name. -/
abbrev longestName : Nat := 255

/-- The most bytes of a path. -/
abbrev longestPath : Nat := 4095

def isTooLong (name : String) : Bool :=
  longestName < name.utf8ByteSize

/-- Follows names from a place to the contents of a file. -/
def walk (tree : Tree) : Place → List String → Except FileFault (List UInt8)
  | _, [] => .error .isADirectory
  | .outside, ".." :: rest => walk tree .outside rest
  | .outside, name :: _ => .error (if isTooLong name then .nameTooLong else .notFound)
  | .inside [], ".." :: rest => walk tree .outside rest
  | .inside names, ".." :: rest => walk tree (.inside names.dropLast) rest
  | .inside names, name :: rest =>
      let place := names ++ [name]
      if isTooLong name then .error .nameTooLong
      else
        match tree.file? place with
        | some contents => if rest = [] then .ok contents else .error .notADirectory
        | none =>
            if tree.isDirectory place then walk tree (.inside place) rest
            else .error .notFound

/-- Reads the file that a path names. -/
def read (tree : Tree) (path : Path) : Except FileFault (List UInt8) :=
  if longestPath < path.text.utf8ByteSize then .error .nameTooLong
  else walk tree (if path.slashes = 0 then .inside [] else .outside) path.names

end Tree

end Chip8
