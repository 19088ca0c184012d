import ScopedConfig.Error

/-!
# Stores in memory

A store holds one snapshot per scope path. The entries of a store in memory are sorted by path, and
each snapshot stands at the path that it was defined at.
-/

namespace ScopedConfig.Store

open Scope (Path)

/-- Refuses a write that goes by another version than the stored one; with nothing stored, that is
version 0. -/
def checkVersion (path : Path) (stored : Option Node) (loaded : Int) : Except Error Unit :=
  let actual := (stored.map Node.version).getD 0
  if actual = loaded then .ok () else .error (.stale path loaded actual)

structure Memory where
  entries : List (Path × Node) := []
deriving DecidableEq

namespace Memory

def empty : Memory := ⟨[]⟩

def size (m : Memory) : Nat := m.entries.length

def load (m : Memory) (path : Path) : Option Node := m.entries.lookup path

/-- Stores the snapshot at its own path, in place of what was there. -/
def save (m : Memory) (node : Node) : Memory := ⟨Keyed.insert node.definedAt node m.entries⟩

def update (m : Memory) (node : Node) (loaded : Int) : Except Error Memory := do
  checkVersion node.definedAt (m.load node.definedAt) loaded
  return m.save node

/-- Removes the snapshots whose paths satisfy the condition, and counts them. -/
def removeWhere (m : Memory) (condition : Path → Bool) : Nat × Memory :=
  let kept := m.entries.filter fun e => !condition e.1
  (m.entries.length - kept.length, ⟨kept⟩)

/-- Removes the snapshot at the path, or all snapshots at it and below it. -/
def delete (m : Memory) (path : Path) (below : Bool) : Nat × Memory :=
  m.removeWhere fun p => if below then p.extends? path else p == path

/-- Removes every snapshot whose path mentions the scope. -/
def deleteMentioning (m : Memory) (name : String) (properties : List (String × String)) :
    Nat × Memory :=
  m.removeWhere fun p => p.mentions name properties

/-- The stored paths that mention the scope, in path order. -/
def list (m : Memory) (name : String) (properties : List (String × String)) : List Path :=
  (m.entries.map Prod.fst).filter fun p => p.mentions name properties

end Memory

end ScopedConfig.Store
