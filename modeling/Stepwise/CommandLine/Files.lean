/-
Reading files: what can go wrong, and a folder held in memory in which paths are looked
up as in a directory.
-/
import Stepwise.Text.Basic

namespace Stepwise
namespace CommandLine

open Text

inductive ReadError where
  | notFound
  | notDirectory
  | isDirectory
  | nameTooLong
  | invalidName
deriving DecidableEq

/-- What is said of the file at `path`. -/
def ReadError.message (path : Text) : ReadError → Text
  | notFound => "open " ++ path ++ ": no such file or directory"
  | notDirectory => "open " ++ path ++ ": not a directory"
  | isDirectory => "read " ++ path ++ ": is a directory"
  | nameTooLong => "open " ++ path ++ ": file name too long"
  | invalidName => "open " ++ path ++ ": invalid argument"

/-- The most bytes that a name in a directory can have. -/
def longestName : Nat := 255

/-- The most bytes that a path can have. -/
def longestPath : Nat := 4095

/-- A folder of files and nothing else, with the contents of each. -/
structure Folder where
  files : List (Text × Text)

namespace Folder

/-- The parts of a path; a slash is a part by itself. -/
def parts (path : Text) : List Text := path.splitBy fun a b => a ≠ slash && b ≠ slash

def staysPut (part : Text) : Bool := part == "." || part == "/"

/-- Why a directory has nothing under a name. -/
def missing (name : Text) : ReadError :=
  if longestName < name.length then .nameTooLong else .notFound

/-- Where a path leads that has left the folder: to directories, but to no file. -/
def outside : List Text → ReadError
  | [] => .isDirectory
  | part :: rest => if staysPut part || part == ".." then outside rest else missing part

/-- Follows the parts of a path from the folder itself. -/
def follow (f : Folder) : List Text → Except ReadError Text
  | [] => .error .isDirectory
  | part :: rest =>
    if staysPut part then follow f rest
    else if part == ".." then .error (outside rest)
    else
      match f.files.lookup part, rest with
      | some contents, [] => .ok contents
      | some _, _ :: _ => .error .notDirectory
      | none, _ => .error (missing part)

/-- The contents of the file at a path, which starts in the folder unless it starts with
a slash.  A path that no file can have is refused before anything is looked up. -/
def read (f : Folder) (path : Text) : Except ReadError Text :=
  match path with
  | [] => .error .notFound
  | b :: _ =>
    if path.contains 0 then .error .invalidName
    else if longestPath < path.length then .error .nameTooLong
    else if b = slash then .error (outside (parts path))
    else f.follow (parts path)

end Folder
end CommandLine
end Stepwise
