import Chip8.Files
import Chip8.Path

/-! # Directories

Files that are given as a list, in and around one directory, and the directories that their paths go
through. A path is read part by part, so it can fail at any of them.
-/

namespace Chip8

/-- A place by the names on the way to it, which begins at the directory. In front of the names may
stand two dots for each step up, or a slash if the way begins at the root. -/
abbrev Place := List String

namespace Place

def root : Place := ["/"]

/-- Whether a part of a path stays where it is. -/
def stays (part : String) : Bool := part = "" || part = "."

/-- The place above. The root is above itself. -/
def above (place : Place) : Place :=
  match place.getLast? with
  | none => [".."]
  | some ".." => place ++ [".."]
  | some "/" => place
  | some _ => place.dropLast

def enter (place : Place) (part : String) : Place :=
  if stays part then place else if part = ".." then place.above else place ++ [part]

def start (path : String) : Place := if Path.isAbsolute path then root else []

/-- The path to a place in its plainest form. -/
def text (place : Place) : String := String.intercalate "/" place

/-- Whether a place is the directory itself or one that it lies in. -/
def isOutermost (place : Place) : Bool := place.all fun part => part = ".." || part = "/"

end Place

structure Directory where
  /-- The directories by the plainest paths to them, but for those that lie outermost. -/
  directories : List String
  /-- The files by the plainest paths to them, newest first. -/
  files : List (String × Bytes)

namespace Directory

def empty : Directory := ⟨[], []⟩

def hasDirectory (d : Directory) (place : Place) : Bool :=
  place.isOutermost || place.text ∈ d.directories

/-- Puts a file where the parts of a path lead from a place, and makes the directories that they go
through. -/
def putAt (d : Directory) (place : Place) (bytes : Bytes) : List String → Directory
  | [] => d
  | [part] => { d with files := ((place.enter part).text, bytes) :: d.files }
  | part :: rest =>
    let next := place.enter part
    putAt { d with directories := next.text :: d.directories } next bytes rest

def put (d : Directory) (path : String) (bytes : Bytes) : Directory :=
  d.putAt (.start path) bytes (Path.pieces path)

def ofList (files : List (String × Bytes)) : Directory :=
  files.foldl (fun d (path, bytes) => d.put path bytes) empty

/-- The longest name of a file or directory, in bytes. -/
def maxNameSize : Nat := 255

/-- The longest path that is looked at, in bytes. -/
def maxPathSize : Nat := 4095

/-- Why there is nothing of a name. -/
def absence (name : String) : FileError :=
  if maxNameSize < name.utf8ByteSize then .nameTooLong else .notFound

/-- Follows the parts of a path from a directory. Only directories have parts. -/
def follow (d : Directory) (place : Place) : List String → Except FileError Bytes
  | [] => .error .isADirectory
  | part :: rest =>
    let next := place.enter part
    if d.hasDirectory next then follow d next rest
    else
      match d.files.lookup next.text with
      | none => .error (absence part)
      | some bytes => if rest = [] then .ok bytes else .error .notADirectory

def read (d : Directory) : Files := fun path =>
  if '\x00' ∈ path.toList then .error .zeroInPath
  else if path = "" then .error .notFound
  else if maxPathSize < path.utf8ByteSize then .error .nameTooLong
  else d.follow (.start path) (Path.pieces path)

end Directory

end Chip8
