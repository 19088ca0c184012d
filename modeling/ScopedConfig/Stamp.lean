import ScopedConfig.Node.Content
import ScopedConfig.Schema.Check

/-!
# Stamping

Before a node is saved it is compared with the snapshot that was stored at the same path. The
version of a node moves on only when its content changes, and every node records the scope and
version of the merged node above it. Nodes are matched by property name, list position, map key, or
the key that the merge gives to set items.
-/

namespace ScopedConfig.Stamp

open Schema

/-- What the schema tells about a node. -/
inductive Role where
  | unknown
  | type (r : Record)
  | property (p : Property)

/-- The next version of a node. Below the largest 64-bit number counting up is the addition of 64-bit
numbers. -/
def versionAfter (previous : Option Node) (current : Node) : Int :=
  match previous with
  | some p => if p.sameContent current then p.version else p.version + 1
  | none => 1

/-- The metadata of `current` as it is stored. -/
def stampInfo (target : Scope.Path) (previous ancestor : Option Node) (current : Node) : Info :=
  { current.info with
    definedAt := target
    version := versionAfter previous current
    parentScope := ancestor.map Node.scopeName
    parentVersion := (ancestor.map Node.version).getD 0 }

/-- The type that declares the properties of a complex node. -/
def recordOf (s : Schema) (role : Role) (current : Node) : Option Record :=
  match role with
  | .unknown => none
  | .type r => some r
  | .property p => s.recordFor p current

def propertyRole (record : Option Record) (name : String) : Role :=
  match record.bind fun r => r.find? name with
  | some p => .property p
  | none => .unknown

def itemRole (s : Schema) (role : Role) (item : Node) : Role :=
  match role with
  | .property p =>
    match s.recordFor p item with
    | some r => .type r
    | none => .unknown
  | _ => .unknown

/-- The merge key of a set item, or its whole content where the schema gives none. -/
def keyOf (s : Schema) (role : Role) (item : Node) : String :=
  match role with
  | .property p =>
    match s.itemKey p p.name item with
    | .ok key => key
    | .error _ => item.fingerprint
  | _ => item.fingerprint

/-- The first item with the key. -/
def withKey (s : Schema) (role : Role) (items : Option (List Node)) (key : String) : Option Node :=
  (items.getD []).find? fun item => keyOf s role item == key

mutual

def stamp (s : Schema) (target : Scope.Path) (role : Role) (previous ancestor : Option Node) :
    Node → Node
  | .simple info text =>
    .simple (stampInfo target previous ancestor (.simple info text)) text
  | .complex info own declared =>
    .complex (stampInfo target previous ancestor (.complex info own declared))
      (stampProperties s target (recordOf s role (.complex info own declared)) previous ancestor
        own)
      declared
  | .list info none => .list (stampInfo target previous ancestor (.list info none)) none
  | .list info (some own) =>
    .list (stampInfo target previous ancestor (.list info (some own)))
      (some (stampList s target role ((previous.bind Node.items?).getD [])
        ((ancestor.bind Node.items?).getD []) own))
  | .set info none => .set (stampInfo target previous ancestor (.set info none)) none
  | .set info (some own) =>
    .set (stampInfo target previous ancestor (.set info (some own)))
      (some (stampSet s target role (previous.bind Node.items?) (ancestor.bind Node.items?) own))
  | .map info none => .map (stampInfo target previous ancestor (.map info none)) none
  | .map info (some own) =>
    .map (stampInfo target previous ancestor (.map info (some own)))
      (some (stampEntries s target role previous ancestor own))
termination_by structural current => current

def stampProperties (s : Schema) (target : Scope.Path) (record : Option Record)
    (previous ancestor : Option Node) : List (String × Node) → List (String × Node)
  | [] => []
  | (name, child) :: rest =>
    (name, stamp s target (propertyRole record name) (previous.bind fun p => p.property? name)
      (ancestor.bind fun a => a.property? name) child) ::
      stampProperties s target record previous ancestor rest
termination_by structural own => own

/-- Items of a list are matched by position. -/
def stampList (s : Schema) (target : Scope.Path) (role : Role) (previous ancestor : List Node) :
    List Node → List Node
  | [] => []
  | item :: rest =>
    stamp s target (itemRole s role item) previous.head? ancestor.head? item ::
      stampList s target role previous.tail ancestor.tail rest
termination_by structural own => own

def stampSet (s : Schema) (target : Scope.Path) (role : Role)
    (previous ancestor : Option (List Node)) : List Node → List Node
  | [] => []
  | item :: rest =>
    stamp s target (itemRole s role item) (withKey s role previous (keyOf s role item))
      (withKey s role ancestor (keyOf s role item)) item ::
      stampSet s target role previous ancestor rest
termination_by structural own => own

def stampEntries (s : Schema) (target : Scope.Path) (role : Role)
    (previous ancestor : Option Node) : List (String × Node) → List (String × Node)
  | [] => []
  | (key, entry) :: rest =>
    (key, stamp s target (itemRole s role entry)
      (previous.bind fun p => p.entries?.bind fun es => es.lookup key)
      (ancestor.bind fun a => a.entries?.bind fun es => es.lookup key) entry) ::
      stampEntries s target role previous ancestor rest
termination_by structural own => own

end

/-- The node to store at `target`: `previous` is what is stored there, `ancestor` the merge of all
levels above. -/
def forSave (s : Schema) (type : Record) (previous : Option Node) (current : Node)
    (ancestor : Option Node) (target : Scope.Path) : Node :=
  stamp s target (.type type) previous ancestor current

end ScopedConfig.Stamp
