/-! Files and folders below a root, and what a path leads to. A path is a list
of names with slashes between them. It is followed from left to right, one name
at a time, and the first name that leads nowhere decides what is wrong. -/
namespace LetLang

/-- Why there is no file to read. -/
inductive FileFault where
  | notFound
  | notAFolder
  | isAFolder
  | nameTooLong
deriving DecidableEq

namespace FileFault

/-- The number that a file system gives to the fault. -/
def code : FileFault → Nat
  | notFound => 2
  | notAFolder => 20
  | isAFolder => 21
  | nameTooLong => 36

def kind : FileFault → String
  | notFound => "NotFound"
  | notAFolder => "NotADirectory"
  | isAFolder => "IsADirectory"
  | nameTooLong => "InvalidFilename"

def message : FileFault → String
  | notFound => "No such file or directory"
  | notAFolder => "Not a directory"
  | isAFolder => "Is a directory"
  | nameTooLong => "File name too long"

end FileFault

/-- Names from the root down. -/
abbrev Place := List String

/-- Files with their content, folders that may be empty, and the folder at
which a path starts that has no slash in front. Folders on the way to any of
these need no entry. -/
structure FileTree where
  working : Place := []
  folders : List Place := []
  files : List (Place × List UInt8) := []
deriving DecidableEq

namespace FileTree

/-- Most bytes of one name. -/
def nameLimit : Nat := 255

/-- Most bytes of a path. -/
def pathLimit : Nat := 4095

/-- The names of a path. Empty ones come from a slash at an end or next to another. -/
def names (path : String) : List String := path.splitOn "/"

def content? (tree : FileTree) (place : Place) : Option (List UInt8) := tree.files.lookup place

/-- A folder is listed as such, or is on the way to something. -/
def isFolder (tree : FileTree) (place : Place) : Bool :=
  place.isPrefixOf tree.working || tree.folders.any place.isPrefixOf ||
    tree.files.any fun file => place.isPrefixOf file.1.dropLast

/-- Follow one name from a place. Only a folder leads on; the folder above the
root is the root. -/
def follow (tree : FileTree) (place : Place) (name : String) : Except FileFault Place :=
  if !tree.isFolder place then .error .notAFolder
  else if name = "" || name = "." then .ok place
  else if name = ".." then .ok place.dropLast
  else if nameLimit < name.utf8ByteSize then .error .nameTooLong
  else if tree.isFolder (place ++ [name]) || (tree.content? (place ++ [name])).isSome then
    .ok (place ++ [name])
  else .error .notFound

/-- The place that a path leads to. -/
def locate (tree : FileTree) (path : String) : Except FileFault Place :=
  if path = "" then .error .notFound
  else if pathLimit < path.utf8ByteSize then .error .nameTooLong
  else
    let start := if path.front = '/' then [] else tree.working
    (names path).foldlM tree.follow start

/-- The content of the file that a path leads to. -/
def read (tree : FileTree) (path : String) : Except FileFault (List UInt8) :=
  match tree.locate path with
  | .error fault => .error fault
  | .ok place =>
      match tree.content? place with
      | some content => .ok content
      | none => .error .isAFolder

end FileTree

end LetLang
