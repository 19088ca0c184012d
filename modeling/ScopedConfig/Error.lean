import ScopedConfig.Document
import ScopedConfig.Schema.Policy

/-!
# Errors

Everything that an operation can fail with, by cause, and the wording of it. Errors of scopes,
policies, data, references, schemas and documents are fatal: trying again does not help. A stale
write and a failing store are not.
-/

namespace ScopedConfig

/-! ## Corrupt data -/

/-- How the data at some place disagrees with the schema or with itself. -/
inductive Corruption where
  | otherKind (expected : Kind) (side : String) (found : Kind) (origin : Scope.Path)
  | notComplex (parent : Kind) (parentOrigin : Scope.Path) (child : Kind)
      (childOrigin : Scope.Path)
  | otherItemKind (expected found : Kind) (origin : Scope.Path)
  | identityAbsent (origin : Scope.Path) (identity : String)
  | rootNotComplex (found : Kind)
  | otherPath (stored defined : Scope.Path)
deriving DecidableEq

def Corruption.message : Corruption → String
  | .otherKind expected side found origin =>
    "expected " ++ expected.name ++ " node, " ++ side ++ " has " ++ found.name ++ " defined at " ++
      origin.text
  | .notComplex parent parentOrigin child childOrigin =>
    "expected complex nodes, found " ++ parent.name ++ " (" ++ parentOrigin.text ++ ") and " ++
      child.name ++ " (" ++ childOrigin.text ++ ")"
  | .otherItemKind expected found origin =>
    "expected " ++ expected.name ++ " items, found " ++ found.name ++ " defined at " ++ origin.text
  | .identityAbsent origin identity =>
    "set item defined at " ++ origin.text ++ " has no value for identity property '" ++ identity ++
      "'"
  | .rootNotComplex found => "expected a complex root node, found " ++ found.name
  | .otherPath stored defined =>
    "snapshot stored for " ++ stored.text ++ " defines " ++ defined.text

/-! ## Schemas -/

inductive SchemaFault where
  | unknownType (name : String)
  | unknownTypeAt (place typeName : String)
  | itemOfUnkeyed (place : String)
  | identityNotSimple (typeName identity : String)
  | identityUndeclared (typeName identity : String)
  | document (report : Document.Report)
  | unreadable (reason : FileFault)
  | inFile (file : String) (fault : SchemaFault)
deriving DecidableEq

def SchemaFault.message : SchemaFault → String
  | .unknownType name => "Unknown type '" ++ name ++ "'"
  | .unknownTypeAt place typeName => place ++ ": unknown type '" ++ typeName ++ "'"
  | .itemOfUnkeyed place => place ++ ": 'item' only applies to list, set and map properties"
  | .identityNotSimple typeName identity =>
    typeName ++ ": identity property '" ++ identity ++ "' must be simple"
  | .identityUndeclared typeName identity =>
    typeName ++ ": identity property '" ++ identity ++ "' is not declared"
  | .document report => report.message
  | .unreadable reason => "failed to read schema file: " ++ reason.message
  | .inFile file fault => file ++ ": " ++ fault.message

/-! ## Stores -/

/-- What a store of files was doing. -/
inductive StorageStep where
  | listing (root : String)
  | creating (root : String)
  | reading (file : String)
  | parsing (file : String)
  | writing (file : String)
  | renaming (file : String)
  | removing (file : String)
deriving DecidableEq

def StorageStep.message : StorageStep → String
  | .listing root => "Failed to list store: " ++ root
  | .creating root => "Failed to create store directory: " ++ root
  | .reading file => "Failed to read snapshot: " ++ file
  | .parsing file => "Failed to parse snapshot: " ++ file
  | .writing file => "Failed to write tmp snapshot: " ++ file
  | .renaming file => "Failed to rename tmp snapshot: " ++ file
  | .removing file => "Failed to remove snapshot: " ++ file

/-- Why it could not be done. -/
inductive StorageCause where
  | file (fault : FileFault)
  | malformed
  | decoding (cause : Decode.Cause)
deriving DecidableEq

def StorageCause.message : StorageCause → String
  | .file fault => fault.message
  | .malformed => "malformed document"
  | .decoding cause => cause.message

/-! ## All errors -/

inductive Error where
  | scope (fault : Scope.Fault)
  | policy (fault : Schema.PolicyFault)
  | corrupt (place : String) (corruption : Corruption)
  /-- The types and paths along the references, from the root to the repeated path. -/
  | cycle (chain : List (String × Scope.Path))
  | stale (path : Scope.Path) (loaded stored : Int)
  | schema (fault : SchemaFault)
  | storage (step : StorageStep) (cause : StorageCause)
  | json (cause : Decode.Cause)
deriving DecidableEq

namespace Error

def frameText (frame : String × Scope.Path) : String := frame.1 ++ "@" ++ frame.2.text

def message : Error → String
  | scope fault => "Invalid scope: " ++ fault.message
  | policy fault => "Invalid merge configuration: " ++ fault.message
  | corrupt place corruption =>
    "Corrupt configuration data: " ++ place ++ ": " ++ corruption.message
  | cycle chain =>
    "Cross-reference cycle detected: " ++ " -> ".intercalate (chain.map frameText)
  | stale path loaded stored =>
    "Stale configuration at " ++ path.text ++ ": loaded version " ++ toString loaded ++
      ", stored version " ++ toString stored
  | schema fault => "Schema error: " ++ fault.message
  | storage step _ => "Persistence error: " ++ step.message
  | json cause => "JSON error: " ++ cause.message

/-- Trying again does not help. -/
def isFatal : Error → Bool
  | stale .. | storage .. => false
  | _ => true

def isStale : Error → Bool
  | stale .. => true
  | _ => false

/-- A policy that does not fit the property at the place. -/
def misuse {α : Type} (place : String) (m : Schema.Misuse) : Except Error α :=
  .error (.policy (.misuse place m))

/-- The causes below the message, the nearest first. -/
def causes : Error → List String
  | storage step cause => [step.message, cause.message]
  | _ => []

end Error

end ScopedConfig
