import ScopedConfig.Node
import ScopedConfig.Schema.Policy

/-!
# Staleness

A child is stale when the node above it is not the one that it was saved against: another scope, or
another version. A merge counts the stale pairs that it meets.
-/

namespace ScopedConfig.Merge

/-! ## Totals -/

/-- The stale pairs of a merge, by what happened to the child. -/
structure Totals where
  merged : Nat := 0
  discarded : Nat := 0
deriving DecidableEq

namespace Totals

def zero : Totals := ⟨0, 0⟩

instance : Add Totals := ⟨fun a b => ⟨a.merged + b.merged, a.discarded + b.discarded⟩⟩

theorem add_def (a b : Totals) : a + b = ⟨a.merged + b.merged, a.discarded + b.discarded⟩ := rfl

@[simp] theorem zero_add (a : Totals) : zero + a = a := by simp [add_def, zero]

@[simp] theorem add_zero (a : Totals) : a + zero = a := by simp [add_def, zero]

theorem add_assoc (a b c : Totals) : a + b + c = a + (b + c) := by
  simp [add_def, Nat.add_assoc]

/-- Some pair was stale. -/
def any (t : Totals) : Bool := t.merged != 0 || t.discarded != 0

end Totals

/-- What an observer of merges is told: the path that was asked for, and the totals. -/
structure Report where
  path : Scope.Path
  totals : Totals
deriving DecidableEq

/-! ## Stale pairs -/

/-- The parent's values are defaults only, which a child always overrides. -/
def defaultsOnly (parent : Node) : Bool := parent.definedAt.isStructural

def isStale (parent child : Node) : Bool :=
  child.info.parentScope != some parent.scopeName || child.info.parentVersion != parent.version

/-- Whether the child of a stale pair is dropped, and how the pair counts. -/
def judge (policy : Schema.StalePolicy) (parent child : Node) : Bool × Totals :=
  if isStale parent child then
    match policy with
    | .useParent => (true, ⟨0, 1⟩)
    | .merge => (false, ⟨1, 0⟩)
  else (false, .zero)

end ScopedConfig.Merge
