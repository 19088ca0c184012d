import ScopedConfig.Cache
import ScopedConfig.Merge
import ScopedConfig.Scope.Registry
import ScopedConfig.Stamp
import ScopedConfig.Store

/-!
# The configuration service

Loading merges the snapshots of a path and all paths above it. Saving stamps a node against what is
stored and against the merged levels above, and writes it. Snapshots are read through the cache, but
what is stored at a path that is saved is always read from the store.
-/

namespace ScopedConfig

/-- What a service goes by. Without a registry, paths with any domain scopes are accepted. -/
structure Rules extends Merge.Rules where
  scopes : Option Scope.Registry := none

/-- What a service changes. -/
structure Service where
  store : Store
  cache : Cache
deriving DecidableEq

/-- The merged configuration of a path. -/
structure Resolved where
  node : Node
  /-- Nothing is stored at the path itself. -/
  isNew : Bool
  /-- The version stored at the path, or 0. -/
  storedVersion : Int
deriving DecidableEq

/-- What an operation answers, the service after it, and what observers of merges are told. -/
structure Answer (α : Type) where
  result : Except Error α
  service : Service
  report : Option Merge.Report := none

namespace Rules

/-- The type of a path's class, if the path is one that the service accepts. -/
def rootType (rules : Rules) (path : Scope.Path) (typeName : String) :
    Except Error Schema.Record := do
  if path.className != typeName then
    throw (.scope (.otherClass path.text path.className typeName))
  if let some registry := rules.scopes then
    (registry.validate path).mapError .scope
  rules.schema.require typeName

end Rules

namespace Service

def start (store : Store) (capacity : Nat) : Service := ⟨store, .empty capacity⟩

/-! ## Reading levels -/

/-- The snapshot of one level, from the cache if it is there. -/
def readLevel (s : Service) (path : Scope.Path) : Except Error (Option Node) × Service :=
  let (cached, cache) := s.cache.get path
  let s := { s with cache }
  match cached with
  | some node => (.ok (some node), s)
  | none =>
    match s.store.load path with
    | .ok (some node) => (.ok (some node), { s with cache := s.cache.put path node })
    | .ok none => (.ok none, s)
    | .error e => (.error e, s)

/-- The levels in order, up to the first that cannot be read. -/
def readLevels (s : Service) : List Scope.Path → Except Error (List (Option Node)) × Service
  | [] => (.ok [], s)
  | path :: rest =>
    match s.readLevel path with
    | (.error e, s) => (.error e, s)
    | (.ok level, s) =>
      match readLevels s rest with
      | (.error e, s) => (.error e, s)
      | (.ok levels, s) => (.ok (level :: levels), s)

/-! ## Loading -/

/-- The configuration of a path from its levels. -/
def resolve (rules : Rules) (type : Schema.Record) (path : Scope.Path)
    (levels : List (Option Node)) : Except Error (Option Resolved × Merge.Totals) := do
  let (merged, stale) ← Merge.levels rules.toRules type levels
  let stored := (levels.getLast?.bind id).map Node.version
  return (merged.map fun node => ⟨node, node.definedAt != path, stored.getD 0⟩, stale)

/-- Merges all levels from the class down to the path. Nothing is resolved when none is stored. -/
def load (rules : Rules) (s : Service) (path : Scope.Path) (typeName : String) :
    Answer (Option Resolved) :=
  match rules.rootType path typeName with
  | .error e => ⟨.error e, s, none⟩
  | .ok type =>
    match s.readLevels path.ancestry with
    | (.error e, s) => ⟨.error e, s, none⟩
    | (.ok levels, s) =>
      match resolve rules type path levels with
      | .error e => ⟨.error e, s, none⟩
      | .ok (resolved, stale) => ⟨.ok resolved, s, Merge.report? path stale⟩

/-! ## Saving -/

/-- The merge of all levels above a path. -/
def ancestor (rules : Rules) (s : Service) (type : Schema.Record) (path : Scope.Path) :
    Except Error (Option Node) × Service :=
  match path.parent? with
  | none => (.ok none, s)
  | some parent =>
    match s.readLevels parent.ancestry with
    | (.error e, s) => (.error e, s)
    | (.ok levels, s) => ((Merge.levels rules.toRules type levels).map Prod.fst, s)

/-- Writes a stamped node. A checked write goes by the version that the caller loaded, any other
by the version that was just read. -/
def write (store : Store) (stamped : Node) (previous : Option Node) (loaded : Option Int) :
    Except Error Store :=
  match loaded, previous with
  | some version, _ => store.update stamped version
  | none, some p => store.update stamped p.version
  | none, none => store.save stamped

/-- Stores a node that was stamped; nothing is written if it is stored already. -/
def commit (s : Service) (path : Scope.Path) (stamped : Node) (previous : Option Node)
    (loaded : Option Int) : Answer Node :=
  if loaded.isNone && previous == some stamped then ⟨.ok stamped, s, none⟩
  else
    match write s.store stamped previous loaded with
    | .error e => ⟨.error e, { s with cache := (s.cache.remove path).2 }, none⟩
    | .ok store => ⟨.ok stamped, { store, cache := s.cache.put path stamped }, none⟩

def saveWith (rules : Rules) (s : Service) (path : Scope.Path) (typeName : String) (node : Node)
    (loaded : Option Int) : Answer Node :=
  match rules.rootType path typeName with
  | .error e => ⟨.error e, s, none⟩
  | .ok type =>
    if node.kind ≠ .complex then
      ⟨.error (.corrupt path.text (.rootNotComplex node.kind)), s, none⟩
    else
      match s.store.load path with
      | .error e => ⟨.error e, s, none⟩
      | .ok previous =>
        match s.ancestor rules type path with
        | (.error e, s) => ⟨.error e, s, none⟩
        | (.ok above, s) =>
          s.commit path (Stamp.forSave rules.schema type previous node above path) previous loaded

/-- Stamps the node and stores it at the path. Answers with the node as it is stored. -/
def save (rules : Rules) (s : Service) (path : Scope.Path) (typeName : String) (node : Node) :
    Answer Node :=
  saveWith rules s path typeName node none

/-- The same, but refused unless the stored version is still the one that was loaded. -/
def saveChecked (rules : Rules) (s : Service) (path : Scope.Path) (typeName : String)
    (node : Node) (loaded : Int) : Answer Node :=
  saveWith rules s path typeName node (some loaded)

/-! ## Deleting and listing -/

/-- Deletes the snapshot at the path, or all at it and below it, and counts them. -/
def delete (s : Service) (path : Scope.Path) (below : Bool) : Answer Nat :=
  match s.store.delete path below with
  | .error e => ⟨.error e, s, none⟩
  | .ok (count, store) =>
    let cache := if below then (s.cache.removeBelow path).2 else (s.cache.remove path).2
    ⟨.ok count, { store, cache }, none⟩

/-- Deletes every snapshot whose path mentions the scope, and empties the cache. -/
def deleteMentioning (s : Service) (name : String) (properties : List (String × String)) :
    Answer Nat :=
  match s.store.deleteMentioning name properties with
  | .error e => ⟨.error e, s, none⟩
  | .ok (count, store) => ⟨.ok count, { store, cache := s.cache.clear }, none⟩

def list (s : Service) (name : String) (properties : List (String × String)) :
    Answer (List Scope.Path) :=
  ⟨s.store.list name properties, s, none⟩

/-- Turning the cache off also empties it. -/
def setCacheEnabled (s : Service) (enabled : Bool) : Service :=
  { s with cache := s.cache.setEnabled enabled }

end Service

end ScopedConfig
