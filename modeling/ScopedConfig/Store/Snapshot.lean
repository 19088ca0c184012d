import ScopedConfig.Json.Printer
import ScopedConfig.Json.Reader
import ScopedConfig.Node.JsonForm

/-!
# Snapshot documents

The text in which one snapshot is kept: an object with the path and the node. Members that are not
known may hold anything.
-/

namespace ScopedConfig

open Decode

structure Snapshot where
  path : Scope.Path
  node : Node
deriving DecidableEq

namespace Snapshot

def toJson (s : Snapshot) : Json :=
  .obj [("scope_path", .str s.path.text), ("node", s.node.toJson)]

def text (s : Snapshot) : String := s.toJson.pretty

/-- The parts read so far. -/
structure Draft where
  path : Option Scope.Path := none
  node : Option Node := none

def Draft.read (d : Draft) (member : String × Json) : Except Cause Draft := do
  let (key, j) := member
  match key with
  | "scope_path" => return { d with path := ← Json.once key d.path j.asPath }
  | "node" => return { d with node := ← Json.once key d.node (Node.ofJson j) }
  | _ => return d

def form : RecordForm := ⟨"struct StoredSnapshot", ["scope_path", "node"]⟩

def ofJson (j : Json) : Except Cause Snapshot := do
  let d ← (← form.named j).foldlM Draft.read {}
  let path ← form.require j "scope_path" d.path
  let node ← form.require j "node" d.node
  form.checkLength .direct j
  return ⟨path, node⟩

/-- What is read of a document: the fields that are known, and of the node's content everything. -/
def want : Json.Want :=
  .members
    [("scope_path", .everything),
      ("node", .members [("meta", .fields Info.form.fields), ("value", .everything)])]

/-- Reads a document that nests at most `depth` arrays and objects. Without a cause, the text does
not follow the grammar. -/
def ofText (depth : Nat) (text : String) : Except (Option Cause) Snapshot :=
  match Json.parse want depth text with
  | none => .error none
  | some j => (ofJson j).mapError some

end Snapshot

end ScopedConfig
