import ScopedConfig.Error
import ScopedConfig.Schema.Check
import ScopedConfig.Toml

/-!
# Schema documents

The written form of a schema: types by name, each with its identity, its default scopes and its
properties. `SchemaDocument.toSchema` turns policy names and segments into what they mean, and
`Schema.parse` reads, converts and validates a text.
-/

namespace ScopedConfig

open Document

namespace Schema

/-! ## References -/

namespace Reference

def shape : Shape := ⟨"ReferenceDescriptor", ["target", "scope_path", "instance"], false⟩

structure Draft where
  target : Option String := none
  path : Option Scope.Path := none
  instanceName : Option String := none

def Draft.read (d : Draft) (field : String) (item : Item) : Except Fault Draft := do
  match field with
  | "target" => return { d with target := some (← item.asText) }
  | "scope_path" => return { d with path := ← Item.asOptional Item.asPath item }
  | "instance" => return { d with instanceName := ← Item.asOptional Item.asText item }
  | _ => return d

def decode (format : Format) (item : Item) : Except Fault Reference := do
  let d ← shape.read Draft.read {} item
  let target ← shape.require item "target" d.target
  shape.checkLength format item
  return ⟨target, d.path, d.instanceName⟩

end Reference

/-! ## Properties -/

/-- A property as it is written. -/
structure PropertyDocument where
  kind : Kind
  typeName : String
  item : Option ItemKind := none
  polymorphic : Bool := false
  reference : Option Reference := none
  stale : Option String := none
  merge : Option String := none
  entryAdded : Option String := none
  entryRemoved : Option String := none
  itemMerge : Option String := none
deriving DecidableEq

namespace PropertyDocument

def shape : Shape :=
  ⟨"PropertyDocument",
    ["kind", "type", "item", "polymorph", "reference", "stale", "merge", "entry_added",
      "entry_removed", "item_merge"], true⟩

structure Draft where
  kind : Option Kind := none
  typeName : Option String := none
  item : Option ItemKind := none
  polymorphic : Bool := false
  reference : Option Reference := none
  stale : Option String := none
  merge : Option String := none
  entryAdded : Option String := none
  entryRemoved : Option String := none
  itemMerge : Option String := none

def itemKindOf? : String → Option ItemKind
  | "simple" => some .simple
  | "complex" => some .complex
  | _ => none

def Draft.read (format : Format) (d : Draft) (field : String) (item : Item) :
    Except Fault Draft := do
  let text := Item.asOptional Item.asText item
  match field with
  | "kind" => return { d with kind := some (← item.asVariant format Kind.names Kind.ofName?) }
  | "type" => return { d with typeName := some (← item.asText) }
  | "item" =>
    let read := Item.asVariant format ["simple", "complex"] itemKindOf?
    return { d with item := ← Item.asOptional read item }
  | "polymorph" => return { d with polymorphic := ← item.asBool }
  | "reference" => return { d with reference := ← Item.asOptional (Reference.decode format) item }
  | "stale" => return { d with stale := ← text }
  | "merge" => return { d with merge := ← text }
  | "entry_added" => return { d with entryAdded := ← text }
  | "entry_removed" => return { d with entryRemoved := ← text }
  | "item_merge" => return { d with itemMerge := ← text }
  | _ => return d

def decode (format : Format) (item : Item) : Except Fault PropertyDocument := do
  let d ← shape.read (Draft.read format) {} item
  let kind ← shape.require item "kind" d.kind
  let typeName ← shape.require item "type" d.typeName
  shape.checkLength format item
  return {
    kind
    typeName
    item := d.item
    polymorphic := d.polymorphic
    reference := d.reference
    stale := d.stale
    merge := d.merge
    entryAdded := d.entryAdded
    entryRemoved := d.entryRemoved
    itemMerge := d.itemMerge }

/-- Sets and maps are merged entry by entry. -/
def isKeyed (d : PropertyDocument) : Bool := d.kind == .set || d.kind == .map

/-- The item kind, which only collections may give. -/
def resolveItem (d : PropertyDocument) (place : String) : Except Error ItemKind :=
  match d.kind, d.item with
  | .complex, none => .ok .complex
  | _, none => .ok .simple
  | .simple, some _ | .complex, some _ => .error (.schema (.itemOfUnkeyed place))
  | _, some item => .ok item

/-- A policy that is written, else the one of the kind. -/
def policyOr {α : Type} (standard : α) (parse : String → Except PolicyFault α) :
    Option String → Except Error α
  | none => .ok standard
  | some text => (parse text).mapError .policy

/-- Refuses policies that the kind has no use for, and policy names that are unknown. -/
def toProperty (d : PropertyDocument) (owner name : String) : Except Error Property := do
  let place := owner ++ "." ++ name
  let itemKind ← d.resolveItem place
  if d.isKeyed && d.merge.isSome then Error.misuse place .valueOfKeyed
  if !d.isKeyed && (d.entryAdded.isSome || d.entryRemoved.isSome || d.itemMerge.isSome) then
    Error.misuse place .entryOfUnkeyed
  let standard := Policy.standard d.kind d.polymorphic
  let stale ← policyOr standard.stale StalePolicy.parse d.stale
  let value ← policyOr standard.value ValuePolicy.parse d.merge
  let entryAdded ← policyOr standard.entryAdded EntryPolicy.parse d.entryAdded
  let entryRemoved ← policyOr standard.entryRemoved EntryPolicy.parse d.entryRemoved
  let item ← policyOr standard.item ItemPolicy.parse d.itemMerge
  return ⟨name, d.kind, d.typeName, itemKind, d.polymorphic, d.reference,
    ⟨stale, value, entryAdded, entryRemoved, item⟩⟩

end PropertyDocument

/-! ## Types -/

/-- A type as it is written. -/
structure TypeDocument where
  identity : Option String := none
  defaultScopes : List String := []
  properties : List (String × PropertyDocument) := []
deriving DecidableEq

namespace TypeDocument

def shape : Shape := ⟨"TypeDocument", ["identity", "default_scopes", "properties"], true⟩

def readProperties : List (Key × Item) → Except Fault (List (String × PropertyDocument))
  | [] => .ok []
  | (key, item) :: rest => do
    let d ← PropertyDocument.decode .toml item
    return (key.name, d) :: (← readProperties rest)

def read (d : TypeDocument) (field : String) (item : Item) : Except Fault TypeDocument := do
  match field with
  | "identity" => return { d with identity := ← Item.asOptional Item.asText item }
  | "default_scopes" => return { d with defaultScopes := ← item.asTexts }
  | "properties" => return { d with properties := ← readProperties (← item.asFields) }
  | _ => return d

def decode (item : Item) : Except Fault TypeDocument := shape.read read {} item

def toRecord (d : TypeDocument) (name : String) : Except Error Record := do
  let scopes ← (d.defaultScopes.mapM Scope.Segment.parse).mapError .scope
  let start : Record := { name, identity := d.identity, defaultScopes := scopes }
  d.properties.foldlM (fun r (key, p) => return r.declare (← p.toProperty name key)) start

end TypeDocument

end Schema

/-! ## Schemas -/

/-- The types by name, as they are written. -/
structure SchemaDocument where
  types : List (String × Schema.TypeDocument) := []
deriving DecidableEq

namespace SchemaDocument

def shape : Shape := ⟨"SchemaDocument", ["types"], true⟩

def readTypes : List (Key × Item) → Except Fault (List (String × Schema.TypeDocument))
  | [] => .ok []
  | (key, item) :: rest => do
    let d ← Schema.TypeDocument.decode item
    return (key.name, d) :: (← readTypes rest)

def read (d : SchemaDocument) (field : String) (item : Item) : Except Fault SchemaDocument := do
  match field with
  | "types" => return { d with types := Keyed.ofList (← readTypes (← item.asFields)) }
  | _ => return d

def decode (item : Item) : Except Fault SchemaDocument := shape.read read {} item

/-- The types are converted in the order of their names. -/
def toSchema (d : SchemaDocument) : Except Error Schema :=
  (Keyed.ofList d.types).foldlM (fun s (name, t) => return s.insert (← t.toRecord name)) .empty

end SchemaDocument

namespace Document

/-- Reads a text and decodes it, or reports the line and the cause. -/
def ofToml {α : Type} (decode : Item → Except Fault α) (source : String) : Except Report α :=
  match Toml.parse source with
  | .error line => .error ⟨source, line, none⟩
  | .ok item =>
    match decode item with
    | .error fault => .error ⟨source, fault.line, some fault.cause⟩
    | .ok a => .ok a

end Document

namespace Schema

/-- Reads and validates a schema. -/
def parse (source : String) (strategies : Strategies) : Except Error Schema := do
  let document ← (Document.ofToml SchemaDocument.decode source).mapError fun r =>
    .schema (.document r)
  let schema ← document.toSchema
  schema.validate strategies
  return schema

/-- Reads and validates the schema of a file. Faults of the schema itself name the file. -/
def parseFile (file : Document.Source) (strategies : Strategies) : Except Error Schema :=
  match file.content with
  | .error reason => .error (.schema (.inFile file.name (.unreadable reason)))
  | .ok source =>
    (parse source strategies).mapError fun e =>
      match e with
      | .schema fault => .schema (.inFile file.name fault)
      | e => e

end Schema

end ScopedConfig
