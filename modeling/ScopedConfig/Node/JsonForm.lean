import ScopedConfig.Json.Record
import ScopedConfig.Node

/-!
# The JSON form of nodes

A node is an object with its metadata under `meta` and its content under `value`, which names the
kind. `Node.toJson` writes every field but the absent names; `Node.ofJson` also accepts missing
fields that have a default, and passes over unknown ones. Each object may also be an array with the
values of its fields.
-/

namespace ScopedConfig

open Decode

def Json.asPath (j : Json) : Except Cause Scope.Path := do
  (Scope.Path.parse (← j.asText)).mapError .scope

/-! ## Metadata -/

namespace Info

def toJson (i : Info) : Json :=
  .obj <|
    [("defining_scope_path", .str i.definedAt.text), ("property_type", .str i.typeName)] ++
    (match i.propertyName with
      | some name => [("property_name", .str name)]
      | none => []) ++
    [("polymorph", .bool i.polymorphic), ("version", .int i.version)] ++
    (match i.parentScope with
      | some name => [("parent_scope_name", .str name)]
      | none => []) ++
    [("parent_version", .int i.parentVersion)]

/-- The fields read so far. -/
structure Draft where
  definedAt : Option Scope.Path := none
  typeName : Option String := none
  propertyName : Option (Option String) := none
  polymorphic : Option Bool := none
  version : Option Int := none
  parentScope : Option (Option String) := none
  parentVersion : Option Int := none

def Draft.read (d : Draft) (member : String × Json) : Except Cause Draft := do
  let (key, j) := member
  match key with
  | "defining_scope_path" => return { d with definedAt := ← Json.once key d.definedAt j.asPath }
  | "property_type" => return { d with typeName := ← Json.once key d.typeName j.asText }
  | "property_name" =>
    return { d with propertyName := ← Json.once key d.propertyName j.asTextOrNull }
  | "polymorph" => return { d with polymorphic := ← Json.once key d.polymorphic j.asBool }
  | "version" => return { d with version := ← Json.once key d.version j.asInt64 }
  | "parent_scope_name" =>
    return { d with parentScope := ← Json.once key d.parentScope j.asTextOrNull }
  | "parent_version" =>
    return { d with parentVersion := ← Json.once key d.parentVersion j.asInt64 }
  | _ => return d

def form : RecordForm :=
  ⟨"struct NodeMeta",
    ["defining_scope_path", "property_type", "property_name", "polymorph", "version",
      "parent_scope_name", "parent_version"]⟩

def ofJson (s : Standing) (j : Json) : Except Cause Info := do
  let d ← (← form.named j).foldlM Draft.read {}
  let definedAt ← form.require j "defining_scope_path" d.definedAt
  let typeName ← form.require j "property_type" d.typeName
  form.checkLength s j
  return {
    definedAt
    typeName
    propertyName := d.propertyName.getD none
    polymorphic := d.polymorphic.getD false
    version := d.version.getD 0
    parentScope := d.parentScope.getD none
    parentVersion := d.parentVersion.getD 0 }

end Info

/-! ## Nodes -/

def Kind.all : List Kind := [.simple, .complex, .list, .set, .map]

def Kind.names : List String := all.map name

def Kind.ofName? : String → Option Kind
  | "simple" => some .simple
  | "complex" => some .complex
  | "list" => some .list
  | "set" => some .set
  | "map" => some .map
  | _ => none

/-- The fields of the content beside the kind. -/
def Kind.form : Kind → RecordForm
  | .simple => ⟨"struct variant NodeValue::Simple", ["value"]⟩
  | .complex => ⟨"struct variant NodeValue::Complex", ["properties", "declared_properties"]⟩
  | .list => ⟨"struct variant NodeValue::List", ["items"]⟩
  | .set => ⟨"struct variant NodeValue::Set", ["items"]⟩
  | .map => ⟨"struct variant NodeValue::Map", ["entries"]⟩

/-- The kind by its name; within content, also by its place among the kinds. -/
def Kind.ofJson (s : Standing) : Json → Except Cause Kind
  | .str name =>
    match Kind.ofName? name with
    | some kind => .ok kind
    | none => .error (.unknownVariant name Kind.names)
  | .int i =>
    if s = .within && 0 ≤ i then
      match all[i.toNat]? with
      | some kind => .ok kind
      | none => .error (.wrongValue (.int i) ("variant index 0 <= i < " ++ toString all.length))
    else .error (.wrongType (.int i) "variant identifier")
  | j => .error (.wrongType j.found "variant identifier")

namespace Node

mutual

def toJson : Node → Json
  | simple i t => withMeta i .simple [("value", .strOrNull t)]
  | complex i ps ds =>
    withMeta i .complex
      [("properties", .obj (fieldsToJson ps)), ("declared_properties", .arr (ds.map .str))]
  | list i none => withMeta i .list [("items", .null)]
  | list i (some xs) => withMeta i .list [("items", .arr (itemsToJson xs))]
  | set i none => withMeta i .set [("items", .null)]
  | set i (some xs) => withMeta i .set [("items", .arr (itemsToJson xs))]
  | map i none => withMeta i .map [("entries", .null)]
  | map i (some es) => withMeta i .map [("entries", .obj (fieldsToJson es))]
where
  withMeta (i : Info) (kind : Kind) (content : List (String × Json)) : Json :=
    .obj [("meta", i.toJson), ("value", .obj (("kind", .str kind.name) :: content))]

def fieldsToJson : List (String × Node) → List (String × Json)
  | [] => []
  | (k, n) :: rest => (k, n.toJson) :: fieldsToJson rest

def itemsToJson : List Node → List Json
  | [] => []
  | n :: rest => n.toJson :: itemsToJson rest

end

def form : RecordForm := ⟨"struct ConfigNode", ["meta", "value"]⟩

/-- The metadata and the content read so far. -/
structure Draft where
  info : Option Info := none
  content : Option (Info → Node) := none

def Draft.finish (d : Draft) : Except Cause Node :=
  match d.info, d.content with
  | none, _ => .error (.missingField "meta")
  | _, none => .error (.missingField "value")
  | some info, some content => .ok (content info)

/-- The fields of the content read so far. -/
structure ContentDraft where
  text : Option (Option String) := none
  properties : Option (List (String × Node)) := none
  declared : Option (List String) := none
  items : Option (Option (List Node)) := none
  entries : Option (Option (List (String × Node))) := none

def ContentDraft.finish (d : ContentDraft) : Kind → Except Cause (Info → Node)
  | .simple => .ok fun i => simple i (d.text.getD none)
  | .complex =>
    match d.properties with
    | none => .error (.missingField "properties")
    | some ps => .ok fun i => complex i ps (Keyed.keySet (d.declared.getD []))
  | .list => .ok fun i => list i (d.items.getD none)
  | .set => .ok fun i => set i (d.items.getD none)
  | .map => .ok fun i => map i (d.entries.getD none)

/-- The kind that the content names. -/
def kindOf (s : Standing) (members : List (String × Json)) : Except Cause Kind :=
  match members.filter fun m => m.1 == "kind" with
  | [] => .error (.missingField "kind")
  | (_, j) :: rest => do
    let kind ← Kind.ofJson s j
    if rest.isEmpty then return kind else throw (.repeatedField "kind")

/-- Content from the first fields of an array, unless there are more. -/
def upTo {α : Type} (known : Nat) (surplus : List Json) (content : α) : Except Cause α :=
  if surplus.isEmpty then .ok content
  else .error (Standing.within.surplus (known + surplus.length) known)

mutual

/-- A node that stands there. -/
def read (s : Standing) : Json → Except Cause Node
  | .obj members => (readMembers s {} members).bind Draft.finish
  | .arr [] => .error (form.tooShort 0)
  | .arr [m] => do
    discard (Info.ofJson s m)
    throw (form.tooShort 1)
  | .arr (m :: v :: rest) => do
    let info ← Info.ofJson s m
    let content ← readContent s v
    if rest.isEmpty then return content info else throw (s.surplus (2 + rest.length) 2)
  | j => .error (.wrongType j.found form.name)

def readMembers (s : Standing) (d : Draft) : List (String × Json) → Except Cause Draft
  | [] => .ok d
  | (key, j) :: rest =>
    if key = "meta" then do
      let info ← Json.once key d.info (Info.ofJson s j)
      readMembers s { d with info } rest
    else if key = "value" then do
      let content ← Json.once key d.content (readContent s j)
      readMembers s { d with content } rest
    else readMembers s d rest

def readContent (s : Standing) : Json → Except Cause (Info → Node)
  | .obj members => do
    let kind ← kindOf s members
    let draft ← readFields kind {} members
    draft.finish kind
  | .arr [] => .error (.missingField "kind")
  | .arr (tag :: values) => do
    let kind ← Kind.ofJson s tag
    readValues kind values
  | j => .error (.wrongType j.found "internally tagged enum NodeValue")

/-- The fields of the content by their places. None but the declared names may be missing. -/
def readValues : Kind → List Json → Except Cause (Info → Node)
  | .simple, j :: rest => do
    let text ← j.asTextOrNull
    upTo 1 rest fun i => simple i text
  | .complex, [j] => do
    let properties ← readTable j
    return fun i => complex i properties []
  | .complex, j :: ds :: rest => do
    let properties ← readTable j
    let declared ← ds.asTexts
    upTo 2 rest fun i => complex i properties (Keyed.keySet declared)
  | .list, j :: rest => do
    let items ← readItems j
    upTo 1 rest fun i => list i items
  | .set, j :: rest => do
    let items ← readItems j
    upTo 1 rest fun i => set i items
  | .map, j :: rest => do
    let entries ← readEntries j
    upTo 1 rest fun i => map i entries
  | kind, [] => .error (kind.form.tooShort 0)

def readFields (kind : Kind) (d : ContentDraft) :
    List (String × Json) → Except Cause ContentDraft
  | [] => .ok d
  | (key, j) :: rest =>
    match kind, key with
    | .simple, "value" => do
      let text ← Json.once key d.text j.asTextOrNull
      readFields kind { d with text } rest
    | .complex, "properties" => do
      let properties ← Json.once key d.properties (readTable j)
      readFields kind { d with properties } rest
    | .complex, "declared_properties" => do
      let declared ← Json.once key d.declared j.asTexts
      readFields kind { d with declared } rest
    | .list, "items" | .set, "items" => do
      let items ← Json.once key d.items (readItems j)
      readFields kind { d with items } rest
    | .map, "entries" => do
      let entries ← Json.once key d.entries (readEntries j)
      readFields kind { d with entries } rest
    | _, _ => readFields kind d rest

def readTable : Json → Except Cause (List (String × Node))
  | .obj members => (readNamed members).map Keyed.ofList
  | j => .error (.wrongType j.found "a map")

def readEntries : Json → Except Cause (Option (List (String × Node)))
  | .null => .ok none
  | .obj members => (readNamed members).map fun ns => some (Keyed.ofList ns)
  | j => .error (.wrongType j.found "a map")

def readItems : Json → Except Cause (Option (List Node))
  | .null => .ok none
  | .arr items => (readNodes items).map some
  | j => .error (.wrongType j.found "a sequence")

def readNamed : List (String × Json) → Except Cause (List (String × Node))
  | [] => .ok []
  | (k, j) :: rest => do
    let n ← read .within j
    return (k, n) :: (← readNamed rest)

def readNodes : List Json → Except Cause (List Node)
  | [] => .ok []
  | j :: rest => do
    let n ← read .within j
    return n :: (← readNodes rest)

end

/-- A node that is a document or a part of one. -/
def ofJson (j : Json) : Except Cause Node := read .direct j

end Node

end ScopedConfig
