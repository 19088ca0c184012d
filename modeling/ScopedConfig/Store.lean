import ScopedConfig.Store.Directory

/-!
# Stores

The six operations on snapshots, whichever kind of store holds them.
-/

namespace ScopedConfig

inductive Store where
  | memory (m : Store.Memory)
  | directory (d : Store.Directory)
deriving DecidableEq

namespace Store

/-- The directory of a store of files. -/
def directory? : Store → Option Store.Directory
  | memory _ => none
  | directory d => some d

/-- The snapshot at exactly this path. -/
def load (s : Store) (path : Scope.Path) : Except Error (Option Node) :=
  match s with
  | memory m => .ok (m.load path)
  | directory d => d.load path

/-- Stores a snapshot at its own path, in place of what was there. -/
def save (s : Store) (node : Node) : Except Error Store :=
  match s with
  | memory m => .ok (memory (m.save node))
  | directory d => (d.save node).map directory

/-- The same, if the stored version is still the one that was loaded. -/
def update (s : Store) (node : Node) (loaded : Int) : Except Error Store :=
  match s with
  | memory m => (m.update node loaded).map memory
  | directory d => (d.update node loaded).map directory

/-- Removes the snapshot at the path, or all at it and below it, and counts them. -/
def delete (s : Store) (path : Scope.Path) (below : Bool) : Except Error (Nat × Store) :=
  match s with
  | memory m => .ok ((m.delete path below).map id memory)
  | directory d => (d.delete path below).map fun r => r.map id directory

/-- Removes every snapshot whose path has a segment of this name with these properties. -/
def deleteMentioning (s : Store) (name : String) (properties : List (String × String)) :
    Except Error (Nat × Store) :=
  match s with
  | memory m => .ok ((m.deleteMentioning name properties).map id memory)
  | directory d => (d.deleteMentioning name properties).map fun r => r.map id directory

/-- The paths with such a segment, in path order. -/
def list (s : Store) (name : String) (properties : List (String × String)) :
    Except Error (List Scope.Path) :=
  match s with
  | memory m => .ok (m.list name properties)
  | directory d => d.list name properties

end Store

end ScopedConfig
