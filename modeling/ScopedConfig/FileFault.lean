/-!
# Files that cannot be reached

Why a path leads to no file or directory that could be used, and the limits that names have.
-/

namespace ScopedConfig

inductive FileFault where
  | absent
  /-- A file stands there already. -/
  | alreadyExists
  /-- A file stands where a directory should be. -/
  | notDirectory
  | isDirectory
  | nameTooLong
  | holdsNul
deriving DecidableEq

namespace FileFault

def message : FileFault → String
  | .absent => "No such file or directory (os error 2)"
  | .alreadyExists => "File exists (os error 17)"
  | .notDirectory => "Not a directory (os error 20)"
  | .isDirectory => "Is a directory (os error 21)"
  | .nameTooLong => "File name too long (os error 36)"
  | .holdsNul => "file name contained an unexpected NUL byte"

/-! ## Limits -/

/-- The bytes that one name in a path may have. -/
def greatestName : Nat := 255

/-- The bytes that a path may have. -/
def greatestPath : Nat := 4095

def isTooLong (name : String) : Bool := greatestName < name.utf8ByteSize

/-- What is wrong with a path as a whole, wherever it leads. -/
def ofPath? (path : String) : Option FileFault :=
  if path.toList.contains (Char.ofNat 0) then some holdsNul
  else if greatestPath < path.utf8ByteSize then some nameTooLong
  else none

/-- The names between the slashes of a path. -/
def names (path : String) : List String :=
  ((path.toList.splitOn '/').filter fun name => !name.isEmpty).map String.ofList

/-- Why the path cannot be a directory even after everything above it has been created. -/
def ofNames? (path : String) : Option FileFault :=
  (ofPath? path).or (if (names path).any isTooLong then some nameTooLong else none)

end FileFault

end ScopedConfig
