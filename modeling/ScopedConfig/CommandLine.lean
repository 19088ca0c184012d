import ScopedConfig.CommandLine.Arguments
import ScopedConfig.CommandLine.Failure
import ScopedConfig.CommandLine.Table
import ScopedConfig.Node.JsonForm
import ScopedConfig.Service

/-!
# Commands

What each command prints and how it changes the store. A command is given the texts of its files and
the directory of its store, and answers with lines, with a failure if there was one, and with the
directory after it.
-/

namespace ScopedConfig

/-! ## The JSON form of answers -/

def Merge.Report.toJson (r : Merge.Report) : Json :=
  .obj
    [("scope_path", .str r.path.text), ("number_of_merged_properties", .int r.totals.merged),
      ("number_of_discarded_properties", .int r.totals.discarded)]

def Resolved.fields (r : Resolved) : List (String × Json) :=
  [("node", r.node.toJson), ("is_new", .bool r.isNew), ("stored_version", .int r.storedVersion)]

namespace CommandLine

open Store (Directory)

/-! ## Outcomes -/

/-- The files that commands read beside the store. -/
structure Files where
  settings : Document.Source
  schema : Option Document.Source

structure Outcome where
  lines : List String
  failure : Option Failure
  store : Directory

namespace Outcome

def printed (o : Outcome) : String := String.join (o.lines.map fun line => line ++ "\n")

def exitCode (o : Outcome) : Nat := if o.failure.isSome then 1 else 0

/-- What is told to the caller beside the lines. -/
def complaint (o : Outcome) : String := (o.failure.map Failure.report).getD ""

end Outcome

/-! ## Reading the files -/

def loadSettings (files : Files) : Except Failure Settings :=
  (Settings.load files.settings).mapError .ofContext

def loadContext (files : Files) : Except Failure Context :=
  match files.schema with
  | none => .error ⟨"Missing required option: --schema", []⟩
  | some schema => (Context.load files.settings schema).mapError .ofContext

/-- The directory that the settings choose, or the usual one. -/
def storeRoot (usual : String) (files : Files) : String :=
  match loadSettings files with
  | .ok s => s.store.root.getD usual
  | .error _ => usual

def parsePath (text : String) : Except Failure Scope.Path :=
  (Scope.Path.parse text).mapError fun fault =>
    ⟨"Invalid scope path: " ++ text, [Error.message (.scope fault)]⟩

/-- Of a repeated key the last value counts. -/
def parseProperties (texts : List String) : Except Failure (List (String × String)) := do
  let pairs ← texts.mapM fun text =>
    match Text.cutAt '=' text.toList with
    | some (key, value) => .ok (String.ofList key, String.ofList value)
    | none => .error ⟨"Expected KEY=VALUE, got '" ++ text ++ "'", []⟩
  return Keyed.ofList pairs

/-! ## Showing -/

def noCycles : String := "✓ No cross-reference cycles"

/-- The lines of a resolved path, its merged values and the stale pairs. -/
def resolvedLines (path : Scope.Path) (r : Resolved) (stale : Option Merge.Report) : List String :=
  ["Scope:   " ++ path.text, "Defined: " ++ r.node.definedAt.text] ++
    (if r.isNew then ["(no snapshot stored at this scope; showing inherited values)"] else []) ++
    [""] ++ tableLines r.node ++
    match stale with
    | some report =>
      ["", "! Stale values: " ++ toString report.totals.merged ++ " merged, " ++
        toString report.totals.discarded ++ " replaced by parent values"]
    | none => []

/-- The same as JSON, with the members of all objects in key order. -/
def resolvedJson (path : Scope.Path) (r : Resolved) (stale : Option Merge.Report) : Json :=
  Json.sorted <| .obj <|
    [("scope_path", .str path.text),
      ("staleness", .arr (stale.toList.map Merge.Report.toJson))] ++ r.fields

/-! ## Commands -/

def resolve (c : Context) (store : Directory) (text : String) (cached : Bool) (layout : Layout) :
    Except Failure (List String) := do
  let path ← parsePath text
  let service := c.service (.directory store)
  let service := if cached then service else service.setCacheEnabled false
  let answer := service.load c.rules path path.className
  match ← answer.result.mapError .ofError, layout with
  | none, _ => return ["Nothing stored for " ++ path.text ++ " or any of its ancestors"]
  | some r, .table => return resolvedLines path r answer.report
  | some r, .json => return [(resolvedJson path r answer.report).pretty]

/-- The declared property, which has to be simple. -/
def simpleProperty (c : Context) (typeName name : String) : Except Failure Schema.Property := do
  let type ← (c.schema.require typeName).mapError .ofError
  match type.find? name with
  | none => throw ⟨"'" ++ typeName ++ "' has no property '" ++ name ++ "'", []⟩
  | some p =>
    if p.kind ≠ .simple then
      throw ⟨"'" ++ typeName ++ "." ++ name ++ "' is a " ++ p.kind.name ++
        " property; only simple properties can be set", []⟩
    return p

/-- Sets one text in the stored snapshot, or in an empty one. Gives the saved node and the service
after it. -/
def set (c : Context) (store : Directory) (text name value : String) :
    Except Failure (List String × Directory) := do
  let path ← parsePath text
  let property ← simpleProperty c path.className name
  let stored ← (store.load path).mapError .ofError
  let current := stored.getD (.emptyComplex path path.className)
  let child : Node :=
    .simple { definedAt := path, typeName := property.typeName } (some value)
  let answer := (c.service (.directory store)).save c.rules path path.className
    (current.withProperty name child)
  let saved ← answer.result.mapError .ofError
  let line := "✓ Saved " ++ path.text ++ " (version " ++ toString saved.version ++ ")"
  return ([line], answer.service.store.directory?.getD store)

def delete (store : Directory) (text : String) (below : Bool) :
    Except Failure (List String × Directory) := do
  let path ← parsePath text
  let (count, store) ← (store.delete path below).mapError .ofError
  return (["✓ Deleted " ++ toString count ++ " snapshot(s) at " ++ path.text], store)

def scopes (store : Directory) (name : String) (properties : List String) :
    Except Failure (List String) := do
  let properties ← parseProperties properties
  match ← (store.list name properties).mapError .ofError with
  | [] => return ["No stored scopes match '" ++ name ++ "'"]
  | paths => return paths.map Scope.Path.text

def checkReferences (c : Context) (typeName : Option String) : Except Failure (List String) := do
  let checked :=
    match typeName with
    | some name => Reference.checkType c.schema name
    | none => Reference.checkAll c.schema
  checked.mapError .ofError
  return [noCycles]

/-- The outcome of a command that has printed `before` and leaves the store as it is. -/
def Outcome.reading (store : Directory) (before : List String)
    (result : Except Failure (List String)) : Outcome :=
  match result with
  | .ok lines => ⟨before ++ lines, none, store⟩
  | .error f => ⟨before, some f, store⟩

/-- The outcome of a command that changes the store if it succeeds. -/
def Outcome.writing (store : Directory) (result : Except Failure (List String × Directory)) :
    Outcome :=
  match result with
  | .ok (lines, store) => ⟨lines, none, store⟩
  | .error f => ⟨[], some f, store⟩

/-- What is printed about a valid schema stays when its references turn out to be cyclic. -/
def validate (files : Files) (store : Directory) : Outcome :=
  match loadContext files with
  | .error f => .reading store [] (.error f)
  | .ok c =>
    let count := "✓ Schema is valid (" ++ toString c.schema.types.length ++ " types)"
    .reading store [count] (checkReferences c none)

def run (files : Files) (store : Directory) : Command → Outcome
  | .validate => validate files store
  | .resolve path cached layout =>
    .reading store [] ((loadContext files).bind fun c => resolve c store path cached layout)
  | .set path property value =>
    .writing store ((loadContext files).bind fun c => set c store path property value)
  | .delete path below =>
    .writing store ((loadSettings files).bind fun _ => delete store path below)
  | .scopes name properties =>
    .reading store [] ((loadSettings files).bind fun _ => scopes store name properties)
  | .checkReferences typeName =>
    .reading store [] ((loadContext files).bind fun c => checkReferences c typeName)

end CommandLine

end ScopedConfig
