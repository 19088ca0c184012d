import ScopedConfig.Context

/-!
# Failures of commands

Why a command failed, as it is told to its caller: a headline, and the causes below it.
-/

namespace ScopedConfig.CommandLine

/-- The nearest cause comes first. -/
structure Failure where
  headline : String
  causes : List String := []
deriving DecidableEq

namespace Failure

def ofError (e : Error) : Failure := ⟨e.message, e.causes⟩

def ofContext (f : ContextFault) : Failure := ⟨f.headline, f.causes⟩

/-- The lines of a text, the first one after `mark` and the others after `margin`. -/
def indented (mark margin text : String) : String :=
  mark ++ ("\n" ++ margin).intercalate ((text.toList.splitOn '\n').map String.ofList)

/-- Several causes are numbered. -/
def causeList : List String → List String
  | [cause] => [indented "    " "    " cause]
  | causes =>
    causes.zipIdx.map fun (cause, i) =>
      indented (Text.padLeft 5 (toString i) ++ ": ") "       " cause

def report (f : Failure) : String :=
  "Error: " ++ f.headline ++ "\n" ++
    (if f.causes.isEmpty then ""
    else "\nCaused by:\n" ++ "\n".intercalate (causeList f.causes) ++ "\n")

end Failure

end ScopedConfig.CommandLine
