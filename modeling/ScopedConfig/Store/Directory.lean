import ScopedConfig.Blake3
import ScopedConfig.Store.Memory
import ScopedConfig.Store.Snapshot

/-!
# Stores of files

A directory holds one file per scope path, named by the hash of the path's text, so paths never leak
into file names. Whatever else lies in the directory is left alone unless its name ends in `.json`.
-/

namespace ScopedConfig.Store

open Scope (Path)

/-! ## Directories -/

inductive Entry where
  | text (content : String)
  | directory
deriving DecidableEq

/-- What lies at the path of the store: nothing yet, nothing and no way to create it, a plain file,
or a directory with its entries by name. -/
inductive Place where
  | absent
  | unreachable (fault : FileFault)
  | file
  | directory (entries : List (String × Entry))
deriving DecidableEq

/-- The root is a path; `nesting` is the deepest nesting of arrays and objects that can be read
back. -/
structure Directory where
  root : String
  place : Place
  nesting : Nat
deriving DecidableEq

namespace Directory

/-- The nesting that a snapshot file may have. -/
def standardNesting : Nat := 127

def atPlace (root : String) (place : Place) : Directory := ⟨root, place, standardNesting⟩

def entries (d : Directory) : List (String × Entry) :=
  match d.place with
  | .directory es => es
  | _ => []

def entry? (d : Directory) (name : String) : Option Entry := d.entries.lookup name

/-- The path of a file in the directory. -/
def filePath (d : Directory) (name : String) : String :=
  if d.root.isEmpty || d.root.endsWith "/" then d.root ++ name else d.root ++ "/" ++ name

/-- The directory with a file, created if there was none. -/
def withFile (d : Directory) (name content : String) : Directory :=
  { d with place := .directory (Keyed.insert name (.text content) d.entries) }

def withoutFiles (d : Directory) (names : List String) : Directory :=
  { d with place := .directory (d.entries.filter fun e => !names.contains e.1) }

/-! ## Snapshot files -/

/-- The name of a path's file without its extension. -/
def key (path : Path) : String := Blake3.hexDigest path.text

def fileName (path : Path) : String := key path ++ ".json"

/-- Something stands before the extension. -/
def isSnapshotName (name : String) : Bool :=
  name.endsWith ".json" && 5 < name.length

/-- Reads a snapshot, and refuses one whose node belongs to another path than the document says. -/
def read (d : Directory) (name : String) (entry : Entry) : Except Error Snapshot :=
  let file := d.filePath name
  match entry with
  | .directory => .error (.storage (.reading file) (.file .isDirectory))
  | .text content =>
    match Snapshot.ofText d.nesting content with
    | .error none => .error (.storage (.parsing file) .malformed)
    | .error (some cause) => .error (.storage (.parsing file) (.decoding cause))
    | .ok s =>
      if s.node.definedAt = s.path then .ok s
      else .error (.corrupt file (.otherPath s.path s.node.definedAt))

/-- Puts a file among others that are sorted by path. -/
def insertFile (file : String × Path) : List (String × Path) → List (String × Path)
  | [] => [file]
  | f :: rest => if (compare file.2 f.2).isLE then file :: f :: rest else f :: insertFile file rest

/-- The snapshot files with their paths. -/
def readAll (d : Directory) : List (String × Entry) → Except Error (List (String × Path))
  | [] => .ok []
  | (name, entry) :: rest =>
    if isSnapshotName name then do
      let s ← d.read name entry
      return insertFile (name, s.path) (← readAll d rest)
    else readAll d rest

/-- All snapshot files, sorted by path. One that cannot be read makes the whole scan fail. The empty
path names no directory, so nothing is found there, although files are written and read by it. -/
def scan (d : Directory) : Except Error (List (String × Path)) :=
  match d.place with
  | .absent | .unreachable _ => .ok []
  | .file => .error (.storage (.listing d.root) (.file .notDirectory))
  | .directory es => if d.root.isEmpty then .ok [] else d.readAll es

/-! ## The store -/

def load (d : Directory) (path : Path) : Except Error (Option Node) :=
  match d.entry? (fileName path) with
  | none => .ok none
  | some entry => (d.read (fileName path) entry).map fun s => some s.node

/-- Writes the snapshot's file, in place of what was there. -/
def save (d : Directory) (node : Node) : Except Error Directory :=
  let name := fileName node.definedAt
  match d.place with
  | .file => .error (.storage (.creating d.root) (.file .alreadyExists))
  | .unreachable fault => .error (.storage (.creating d.root) (.file fault))
  | _ =>
    match d.entry? name with
    | some .directory =>
      .error (.storage (.renaming (d.filePath (name ++ ".tmp"))) (.file .isDirectory))
    | _ => .ok (d.withFile name (Snapshot.text ⟨node.definedAt, node⟩))

def update (d : Directory) (node : Node) (loaded : Int) : Except Error Directory := do
  let stored ← d.load node.definedAt
  checkVersion node.definedAt stored loaded
  d.save node

/-- Removes the files of the paths that satisfy the condition, and counts them. -/
def removeWhere (d : Directory) (condition : Path → Bool) : Except Error (Nat × Directory) := do
  let names := ((← d.scan).filter fun f => condition f.2).map Prod.fst
  return (names.length, if names.isEmpty then d else d.withoutFiles names)

def delete (d : Directory) (path : Path) (below : Bool) : Except Error (Nat × Directory) :=
  if below then d.removeWhere fun p => p.extends? path
  else
    let name := fileName path
    match d.entry? name with
    | none => .ok (0, d)
    | some .directory => .error (.storage (.removing (d.filePath name)) (.file .isDirectory))
    | some (.text _) => .ok (1, d.withoutFiles [name])

def deleteMentioning (d : Directory) (name : String) (properties : List (String × String)) :
    Except Error (Nat × Directory) :=
  d.removeWhere fun p => p.mentions name properties

def list (d : Directory) (name : String) (properties : List (String × String)) :
    Except Error (List Path) :=
  d.scan.map fun files => (files.map Prod.snd).filter fun p => p.mentions name properties

end Directory

end ScopedConfig.Store
