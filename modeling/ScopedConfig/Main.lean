import ScopedConfig.CommandLine

/-!
# The program

Reads the files and the store's directory, runs the command, writes back what changed in the
directory, and prints.
-/

namespace ScopedConfig.CommandLine

def usage : String :=
  "Usage: strata [--settings FILE] [--schema FILE] COMMAND\n\n" ++
    "Commands:\n" ++
    "  validate                            Parse and validate the schema\n" ++
    "  resolve PATH [--no-cache] [-f FORMAT]\n" ++
    "                                      Merge every stored level down to a scope path\n" ++
    "  set PATH PROPERTY VALUE             Store a simple property value at a scope path\n" ++
    "  delete PATH [--children]            Delete the snapshot stored at a scope path\n" ++
    "  scopes SCOPE [--property KEY=VALUE] List stored scope paths containing a scope\n" ++
    "  check-refs [TYPE]                   Check declared cross-references for cycles\n"

/-- The directory that a variable of the environment names, or one in the home directory. -/
def baseDirectory (name usual : String) : IO String := do
  match ← IO.getEnv name with
  | some directory => if directory.startsWith "/" then return directory
  | none => pure ()
  return ((← IO.getEnv "HOME").getD "") ++ "/" ++ usual

def faultOf (path : String) (e : IO.Error) : IO FileFault :=
  match e with
  | .noFileOrDirectory .. => return .absent
  | .inappropriateType .. => return .notDirectory
  | .invalidArgument .. => return (FileFault.ofPath? path).getD .nameTooLong
  | e => throw e

def readSource (name : String) : IO Document.Source := do
  if name.isEmpty then return ⟨name, .error .absent⟩
  let here := (← IO.currentDir) / name
  if ← here.isDir then return ⟨name, .error .isDirectory⟩
  try
    return ⟨name, .ok (← IO.FS.readFile here)⟩
  catch e => return ⟨name, .error (← faultOf name e)⟩

/-- Why nothing can be created at the root of a store to which no path leads. -/
def creationFault? (root : String) : FileFault → IO (Option FileFault)
  | .absent => return FileFault.ofNames? root
  | .notDirectory => do
    let bare := String.ofList (root.toList.reverse.dropWhile (· == '/')).reverse
    let isFile ← ((← IO.currentDir) / bare).pathExists
    return some (if isFile then .alreadyExists else .notDirectory)
  | fault => return some fault

/-- What lies at the root of the store. Files that cannot be snapshots are not looked at. -/
def readPlace (root : String) : IO Store.Place := do
  let here := (← IO.currentDir) / root
  if ← here.isDir then
    let mut entries : List (String × Store.Entry) := []
    for entry in ← here.readDir do
      if Store.Directory.isSnapshotName entry.fileName then
        let content ←
          if ← entry.path.isDir then pure .directory
          else pure (.text (← IO.FS.readFile entry.path))
        entries := Keyed.insert entry.fileName content entries
    return .directory entries
  try
    discard here.metadata
    return .file
  catch e =>
    match ← creationFault? root (← faultOf root e) with
    | some fault => return .unreachable fault
    | none => return .absent

/-- Removes the files that are gone and writes those that are new or changed, each by way of a file
beside it. -/
def writeBack (before after : Store.Directory) : IO Unit := do
  for (name, _) in before.entries do
    if (after.entry? name).isNone then IO.FS.removeFile (before.filePath name)
  for (name, entry) in after.entries do
    match entry with
    | .text content =>
      if before.entry? name ≠ some entry then
        unless after.root.isEmpty do IO.FS.createDirAll after.root
        let draft := after.filePath (name ++ ".tmp")
        IO.FS.writeFile draft content
        IO.FS.rename draft (after.filePath name)
    | .directory => pure ()

def perform (invocation : Invocation) : IO UInt32 := do
  let settings ←
    match invocation.settings with
    | some name => pure name
    | none => pure ((← baseDirectory "XDG_CONFIG_HOME" ".config") ++ "/strata/strata.toml")
  let files : Files := ⟨← readSource settings, ← invocation.schema.mapM readSource⟩
  let usual := (← baseDirectory "XDG_STATE_HOME" ".local/state") ++ "/strata/store"
  let root := storeRoot usual files
  let store := Store.Directory.atPlace root (← readPlace root)
  let outcome := run files store invocation.command
  writeBack store outcome.store
  IO.print outcome.printed
  IO.eprint outcome.complaint
  return UInt32.ofNat outcome.exitCode

end ScopedConfig.CommandLine

/-- Exit code 2 tells that the arguments do not fit any command. -/
def main (arguments : List String) : IO UInt32 := do
  match ScopedConfig.CommandLine.Invocation.parse arguments with
  | some invocation => ScopedConfig.CommandLine.perform invocation
  | none =>
    IO.eprint ScopedConfig.CommandLine.usage
    return 2
