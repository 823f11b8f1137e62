/-! # Paths

The text of a path names directories and a file between slashes. Empty parts and single dots say
nothing, but for a dot in front of a path that does not begin at the root.
-/

namespace Chip8

namespace Path

/-- What stands between the slashes. -/
def pieces (path : String) : List String := (path.toList.splitOn '/').map String.ofList

def isAbsolute (path : String) : Bool := path.toList.head? = some '/'

/-- The pieces that name something. -/
def named (pieces : List String) : List String :=
  pieces.filter fun piece => piece ≠ "" ∧ piece ≠ "."

/-- The file name of a path, unless it ends in the root or in two dots. -/
def fileName? (path : String) : Option String :=
  match (named (pieces path)).getLast? with
  | some name => if name = ".." then none else some name
  | none => none

/-- What follows the last dot of the file name, unless nothing stands in front of that dot. -/
def extension? (path : String) : Option String := do
  let name ← fileName? path
  match (name.toList.splitOn '.').reverse with
  | last :: before => if before = [] ∨ before = [[]] then none else some (String.ofList last)
  | [] => none

/-- Takes pieces that say nothing off the end, given in reverse. -/
def trimEnd : List String → List String
  | [] => []
  | piece :: rest =>
    if piece = "" ∨ (piece = "." ∧ rest ≠ []) then trimEnd rest else piece :: rest

/-- The path without its last part, unless it has none behind the root. -/
def parent? (path : String) : Option String :=
  match trimEnd (pieces path).reverse with
  | [] => none
  | _ :: rest =>
    let above := (trimEnd rest).reverse
    some (if isAbsolute path ∧ above = [] then "/" else String.intercalate "/" above)

/-- A path that continues another, or replaces it if it begins at the root. -/
def join (base path : String) : String :=
  if isAbsolute path then path
  else if base = "" ∨ base.toList.getLast? = some '/' then base ++ path
  else base ++ "/" ++ path

end Path

end Chip8
