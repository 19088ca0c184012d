import ScopedConfig.Node

/-!
# The snapshot cache

A bounded map from scope paths to snapshots that forgets the path that was not used for longest.
While it is disabled it is empty and counts nothing.
-/

namespace ScopedConfig

structure Cache where
  capacity : Nat
  enabled : Bool
  /-- The least recently used first; no path occurs twice. -/
  entries : List (Scope.Path × Node)
  hits : Nat
  misses : Nat
  evictions : Nat
deriving DecidableEq

namespace Cache

def defaultCapacity : Nat := 200

/-- An enabled cache without entries, for one snapshot at least. -/
def empty (capacity : Nat) : Cache := ⟨max capacity 1, true, [], 0, 0, 0⟩

def size (c : Cache) : Nat := c.entries.length

/-- The entries without one for the path. -/
def without (path : Scope.Path) (entries : List (Scope.Path × Node)) : List (Scope.Path × Node) :=
  entries.filter fun e => !(e.1 == path)

/-- A hit makes the path the most recently used one. -/
def get (c : Cache) (path : Scope.Path) : Option Node × Cache :=
  if c.enabled then
    match c.entries.lookup path with
    | some node =>
      let entries := without path c.entries ++ [(path, node)]
      (some node, { c with entries, hits := c.hits + 1 })
    | none => (none, { c with misses := c.misses + 1 })
  else (none, c)

/-- Stores a snapshot as the most recently used one, and drops what the capacity does not hold. -/
def put (c : Cache) (path : Scope.Path) (node : Node) : Cache :=
  if c.enabled then
    let entries := without path c.entries ++ [(path, node)]
    let surplus := entries.length - c.capacity
    { c with entries := entries.drop surplus, evictions := c.evictions + surplus }
  else c

def remove (c : Cache) (path : Scope.Path) : Option Node × Cache :=
  (c.entries.lookup path, { c with entries := without path c.entries })

/-- Removes the path and all paths that extend it. -/
def removeBelow (c : Cache) (path : Scope.Path) : Nat × Cache :=
  let kept := c.entries.filter fun e => !e.1.extends? path
  (c.entries.length - kept.length, { c with entries := kept })

def clear (c : Cache) : Cache := { c with entries := [] }

/-- Disabling also empties the cache. -/
def setEnabled (c : Cache) (enabled : Bool) : Cache :=
  { c with enabled, entries := if enabled then c.entries else [] }

end Cache

end ScopedConfig
