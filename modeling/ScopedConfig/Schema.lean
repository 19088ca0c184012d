import ScopedConfig.Schema.Policy

/-!
# Schemas

A schema describes the configuration classes and the types of their items: which properties a type
has, of which kinds, how each one merges, and which of them refer to other classes. The properties
keep the order in which they are declared; the types are sorted by name.
-/

namespace ScopedConfig

namespace Schema

/-- A link from a property to another configuration class. -/
structure Reference where
  target : String
  /-- Overrides the default path of the target. -/
  path : Option Scope.Path := none
  /-- Appended as an instance scope. -/
  instanceName : Option String := none
deriving DecidableEq

structure Property where
  name : String
  kind : Kind
  /-- The type of a text, the class of a complex value, or the type of a collection's items. -/
  typeName : String
  itemKind : ItemKind
  polymorphic : Bool
  reference : Option Reference
  policy : Policy
deriving DecidableEq

namespace Property

/-! ## Building -/

def plain (name : String) (kind : Kind) (typeName : String) (itemKind : ItemKind) : Property :=
  ⟨name, kind, typeName, itemKind, false, none, .standard kind false⟩

def simple (name typeName : String) : Property := plain name .simple typeName .simple

def complex (name typeName : String) : Property := plain name .complex typeName .complex

def list (name : String) (itemKind : ItemKind) (itemType : String) : Property :=
  plain name .list itemType itemKind

def set (name : String) (itemKind : ItemKind) (itemType : String) : Property :=
  plain name .set itemType itemKind

def map (name : String) (itemKind : ItemKind) (itemType : String) : Property :=
  plain name .map itemType itemKind

/-- A value policy that is still the kind's own becomes the one for polymorphic values. -/
def asPolymorphic (p : Property) : Property :=
  let value :=
    if p.policy.value = .standard p.kind false then .standard p.kind true else p.policy.value
  { p with polymorphic := true, policy := { p.policy with value } }

def referTo (p : Property) (reference : Reference) : Property :=
  { p with reference := some reference }

def mergeBy (p : Property) (value : ValuePolicy) : Property :=
  { p with policy := { p.policy with value } }

def onStale (p : Property) (stale : StalePolicy) : Property :=
  { p with policy := { p.policy with stale } }

def entriesBy (p : Property) (entryAdded entryRemoved : EntryPolicy) : Property :=
  { p with policy := { p.policy with entryAdded, entryRemoved } }

def itemsBy (p : Property) (item : ItemPolicy) : Property :=
  { p with policy := { p.policy with item } }

/-! ## Views -/

/-- The value or the items are complex nodes. -/
def hasComplexItems (p : Property) : Bool :=
  match p.kind with
  | .simple => false
  | .complex => true
  | .list | .set | .map => p.itemKind == .complex

end Property

/-- A configuration class, or the type of complex values and items. -/
structure Record where
  name : String
  /-- The property whose value tells items of a set apart. -/
  identity : Option String := none
  /-- The domain segments of the default path. -/
  defaultScopes : List Scope.Segment := []
  properties : List Property := []
deriving DecidableEq

namespace Record

def find? (r : Record) (name : String) : Option Property :=
  r.properties.find? fun p => p.name == name

/-- Replaces the property with the same name where it stands, or adds it at the end. -/
def declare (r : Record) (p : Property) : Record :=
  if (r.find? p.name).isSome then
    { r with properties := r.properties.map fun q => if q.name == p.name then p else q }
  else { r with properties := r.properties ++ [p] }

/-- Class and default scope, followed by the default scopes one by one. -/
def defaultPath (r : Record) : Except Scope.Fault Scope.Path :=
  (Scope.Path.forClass r.name).bind fun p => p.appendAll r.defaultScopes

end Record

end Schema

/-- The types by name. -/
structure Schema where
  types : List (String × Schema.Record) := []
deriving DecidableEq

namespace Schema

def empty : Schema := ⟨[]⟩

/-- Replaces the type with the same name. -/
def insert (s : Schema) (r : Record) : Schema := ⟨Keyed.insert r.name r s.types⟩

def find? (s : Schema) (name : String) : Option Record := s.types.lookup name

def records (s : Schema) : List Record := s.types.map Prod.snd

/-- The type of a complex value or item. A polymorphic value brings its own type name. -/
def recordFor (s : Schema) (p : Property) (n : Node) : Option Record :=
  if p.hasComplexItems then s.find? (if p.polymorphic then n.typeName else p.typeName) else none

end Schema

end ScopedConfig
