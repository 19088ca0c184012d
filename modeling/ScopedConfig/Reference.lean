import ScopedConfig.Schema.Check

/-!
# References between classes

The graph of declared references: a place is a type at a scope path, and a step leads along a
reference to its target, or into an embedded complex type at the same path. The check walks this
graph and refuses a chain of references that comes back to a path it has passed. Polymorphic
properties are not entered, since their types are known only at run time.
-/

namespace ScopedConfig.Reference

open Schema

/-! ## Where a reference leads -/

/-- An explicit path counts before the default path of the target; an instance name is appended. -/
def resolve (s : Schema) (reference : Schema.Reference) : Except Error Scope.Path := do
  let base ←
    match reference.path with
    | some path => pure path
    | none =>
      let target ← s.require reference.target
      target.defaultPath.mapError .scope
  match reference.instanceName with
  | some name => (base.append (.withProperty "instance" "name" name)).mapError .scope
  | none => return base

/-! ## The walk -/

/-- A type at a scope path. -/
abbrev Place := String × Scope.Path

/-- The places in the order in which the walk has finished with them. -/
abbrev Finished := List Place

/-- The number of references that the schema declares. -/
def declaredCount (s : Schema) : Nat :=
  (s.records.flatMap fun r => r.properties.filter fun p => p.reference.isSome).length

/-- More than all places that a walk can open inside one another: each type at the root path or at
the path of a reference. -/
def depthBound (s : Schema) : Nat := s.types.length * (1 + declaredCount s) + 2

/-- A place that is finished or still open is not entered again. Coming back to an open place
through embedded types alone is recursion of the data, not a cycle of references. -/
def visit (s : Schema) (chain : List Place) : (fuel : Nat) → (opened : List Place) →
    (r : Record) → Scope.Path → Finished → Except Error Finished
  | 0, _, _, _, done => .ok done
  | fuel + 1, opened, r, path, done =>
    let place := (r.name, path)
    if done.contains place || opened.contains place then .ok done
    else do
      let done ← r.properties.foldlM (fun done p =>
        match p.reference with
        | some reference => do
          let target ← s.require reference.target
          let path ← resolve s reference
          let chain := chain ++ [(target.name, path)]
          if chain.dropLast.any fun frame => frame.2 == path then throw (.cycle chain)
          visit s chain fuel (place :: opened) target path done
        | none =>
          if p.hasComplexItems && !p.polymorphic then do
            let embedded ← s.require p.typeName
            visit s chain fuel (place :: opened) embedded path done
          else pure done) done
      return place :: done

/-- Everything that can be reached from a type at a path. -/
def check (s : Schema) (typeName : String) (path : Scope.Path) : Except Error Unit := do
  let r ← s.require typeName
  discard (visit s [(r.name, path)] (depthBound s) [] r path [])

/-- The type at its default path. -/
def checkType (s : Schema) (typeName : String) : Except Error Unit := do
  let r ← s.require typeName
  let path ← r.defaultPath.mapError .scope
  check s typeName path

def checkAll (s : Schema) : Except Error Unit :=
  s.records.forM fun r => checkType s r.name

end ScopedConfig.Reference
