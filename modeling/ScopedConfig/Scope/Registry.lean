import ScopedConfig.Scope.Path

/-!
# Scope registries

Which domain scopes may follow class and default, in which order, and which properties each of them
needs. Registered names are never structural and never repeated: `Registry.register` refuses them.
-/

namespace ScopedConfig.Scope

structure Descriptor where
  name : String
  required : List String := []
deriving DecidableEq

/-- The domain scopes from the most generic to the most specific. -/
structure Registry where
  scopes : List Descriptor := []
deriving DecidableEq

namespace Registry

def empty : Registry := ⟨[]⟩

/-- One `global` scope, then users and instances by name. -/
def standard : Registry :=
  ⟨[⟨"global", []⟩, ⟨"user", ["name"]⟩, ⟨"instance", ["name"]⟩]⟩

def find? (r : Registry) (name : String) : Option Descriptor :=
  r.scopes.find? fun d => d.name == name

/-- Adds a scope after all others. -/
def register (r : Registry) (d : Descriptor) : Except Fault Registry :=
  if d.name == "class" || d.name == "default" then .error (.structuralName d.name)
  else if (r.find? d.name).isSome then .error (.registeredTwice d.name)
  else .ok ⟨r.scopes ++ [d]⟩

def position? (r : Registry) (name : String) : Option Nat :=
  r.scopes.findIdx? fun d => d.name == name

/-- Checks the domain segments of the path with the text `whole`, where `next` is the first position
that is still free. -/
def validateFrom (r : Registry) (whole : String) : Nat → List Segment → Except Fault Unit
  | _, [] => .ok ()
  | next, s :: rest =>
    match r.position? s.name with
    | none => .error (.notInRegistry s.name whole)
    | some i =>
      if i < next then .error (.outOfOrder s.name whole)
      else
        let required := ((r.scopes[i]?).map Descriptor.required).getD []
        match required.find? fun key => (s.property? key).isNone with
        | some key => .error (.propertyRequired s.name key whole)
        | none => validateFrom r whole (i + 1) rest

/-- The domain segments are registered, in the registered order, and carry what they have to. -/
def validate (r : Registry) (p : Path) : Except Fault Unit :=
  r.validateFrom p.text 0 p.domain

/-- The path of a class with these domain segments. -/
def pathFor (r : Registry) (className : String) (segments : List Segment) :
    Except Fault Path := do
  let path ← (← Path.forClass className).appendAll segments
  r.validate path
  return path

def readChoices (whole : String) : List (List Char) → Except Fault (List (String × String))
  | [] => .ok []
  | piece :: rest =>
    match Text.cutAt '=' piece with
    | none => .error (.choicePairExpected whole)
    | some (k, v) => do
      return (String.ofList k, String.ofList v) :: (← readChoices whole rest)

/-- Reads `name` or `name:key=value,key=value`. Of a repeated key the last value counts, and tokens
are not checked before the segment becomes part of a path. -/
def parseSegment (r : Registry) (whole : String) : Except Fault Segment := do
  let (name, body) := (Text.cutAt ':' whole.toList).getD (whole.toList, [])
  let pairs ← readChoices whole (Text.filledPieces ',' body)
  let name := String.ofList name
  if (r.find? name).isNone then throw (.choiceUnknown name)
  return .ofPairs name pairs

end Registry

end ScopedConfig.Scope
