import ScopedConfig.Error
import ScopedConfig.Merge.Strategy
import ScopedConfig.Node.Content
import ScopedConfig.Schema

/-!
# Checking schemas

Which policies fit which properties, what identifies the items of a set, and when a whole schema is
accepted. `Schema.validate` looks at the types in the order of their names and at the properties in
the order of their declaration.
-/

namespace ScopedConfig.Schema

def require (s : Schema) (name : String) : Except Error Record :=
  match s.find? name with
  | some r => .ok r
  | none => .error (.schema (.unknownType name))

/-! ## Set items -/

/-- The text that identifies an item of a set at all levels: the item itself if it is simple, else
the value of its identity property. A polymorphic item of a type without identity is identified by
its whole content. -/
def itemKey (s : Schema) (p : Property) (place : String) (item : Node) : Except Error String :=
  let byIdentity (identity : String) : Except Error String :=
    match item.property? identity with
    | some value => .ok value.fingerprint
    | none => .error (.corrupt place (.identityAbsent item.definedAt identity))
  match p.itemKind with
  | .simple => .ok item.fingerprint
  | .complex =>
    if p.polymorphic then
      match (s.find? item.typeName).bind Record.identity with
      | some identity => byIdentity identity
      | none => .ok item.fingerprint
    else do
      let r ← s.require p.typeName
      match r.identity with
      | some identity => byIdentity identity
      | none => Error.misuse place (.identityMissing r.name)

/-! ## Policies -/

namespace Property

/-- The place of a property in messages. -/
def placeIn (p : Property) (owner : String) : String := owner ++ "." ++ p.name

/-- A policy that the kind of the property does not allow. -/
def misuse? (p : Property) (strategies : Strategies) : Option Misuse :=
  match p.kind, p.policy.value with
  | .simple, .merge => some .mergeOfSimple
  | .simple, .strategy name =>
    if strategies.contains name then none else some (.unknownStrategy name)
  | .complex, .merge => if p.polymorphic then some .mergeOfPolymorphic else none
  | .complex, .strategy name => some (.strategyOfComplex name)
  | .list, .merge => some (.valueOfList ValuePolicy.merge.text)
  | .list, .strategy name => some (.valueOfList name)
  | .set, _ | .map, _ =>
    if p.policy.item = .merge then
      if p.polymorphic then some .mergeOfPolymorphicItems
      else if p.itemKind = .simple then some .mergeOfSimpleItems
      else none
    else none
  | _, _ => none

/-- Refuses what the merge cannot do with the property of this owner. -/
def check (p : Property) (owner : String) (s : Schema) (strategies : Strategies) :
    Except Error Unit := do
  let place := p.placeIn owner
  if let some m := p.misuse? strategies then Error.misuse place m
  if p.kind = .set ∧ p.itemKind = .complex ∧ p.polymorphic = false then
    let r ← s.require p.typeName
    if r.identity.isNone then Error.misuse place (.identityMissing p.typeName)
  if p.hasComplexItems && !p.polymorphic && (s.find? p.typeName).isNone then
    throw (.schema (.unknownTypeAt place p.typeName))

end Property

/-! ## Types -/

/-- The identity of a type has to be one of its simple properties. -/
def Record.checkIdentity (r : Record) : Except Error Unit :=
  match r.identity with
  | none => .ok ()
  | some identity =>
    match r.find? identity with
    | none => .error (.schema (.identityUndeclared r.name identity))
    | some p =>
      if p.kind = .simple then .ok ()
      else .error (.schema (.identityNotSimple r.name identity))

/-- The property's policies fit, and the target of its reference is known. -/
def checkProperty (s : Schema) (strategies : Strategies) (owner : Record) (p : Property) :
    Except Error Unit := do
  p.check owner.name s strategies
  match p.reference with
  | some reference => discard (s.require reference.target)
  | none => return ()

def checkRecord (s : Schema) (strategies : Strategies) (r : Record) : Except Error Unit := do
  r.checkIdentity
  r.properties.forM (s.checkProperty strategies r)

def validate (s : Schema) (strategies : Strategies) : Except Error Unit :=
  s.records.forM (s.checkRecord strategies)

end ScopedConfig.Schema
