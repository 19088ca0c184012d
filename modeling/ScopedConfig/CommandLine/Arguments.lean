import ScopedConfig.Text

/-!
# Arguments

What a call of the program asks for. Arguments are options, their values and operands; the first
operand names the command, and each command has options and operands of its own. The two file
options may stand before the command and after it, and the ones after it count.
-/

namespace ScopedConfig.CommandLine

/-! ## Options and operands -/

structure OptionRule where
  name : String
  short : Option Char := none
  /-- The option has a value, as part of the argument or as the next one. -/
  valued : Bool := true
  repeatable : Bool := false
  /-- The value must not be empty. -/
  filled : Bool := false

/-- The arguments read so far. -/
structure Reading where
  /-- The options in the order in which they were given; one without value has an empty one. -/
  given : List (String × String) := []
  operands : List String := []
  /-- The option whose value has to come next. -/
  awaiting : Option OptionRule := none
  /-- After `--` there are no more options. -/
  operandsOnly : Bool := false

namespace Reading

def values (r : Reading) (name : String) : List String :=
  (r.given.filter fun g => g.1 == name).map Prod.snd

def value? (r : Reading) (name : String) : Option String := (r.values name).head?

def has (r : Reading) (name : String) : Bool := !(r.values name).isEmpty

def give (r : Reading) (rule : OptionRule) (value : String) : Option Reading :=
  if (r.has rule.name && !rule.repeatable) || (rule.filled && value.isEmpty) then none
  else some { r with given := r.given ++ [(rule.name, value)], awaiting := none }

/-- An option with the value that stands in the same argument, if there is one. -/
def giveOrAwait (r : Reading) (rule : OptionRule) (value : Option (List Char)) : Option Reading :=
  match rule.valued, value with
  | true, some v => r.give rule (String.ofList v)
  | true, none => some { r with awaiting := some rule }
  | false, none => r.give rule ""
  | false, some _ => none

def operand (r : Reading) (argument : String) : Option Reading :=
  some { r with operands := r.operands ++ [argument] }

/-- Reads one argument. A lone `-` is a value or operand like any other text. -/
def step (rules : List OptionRule) (r : Reading) (argument : String) : Option Reading :=
  match r.awaiting, r.operandsOnly, argument.toList with
  | some _, _, '-' :: _ :: _ => none
  | some rule, _, _ => r.give rule argument
  | none, true, _ => r.operand argument
  | none, false, ['-', '-'] => some { r with operandsOnly := true }
  | none, false, '-' :: '-' :: body =>
    let (name, value) : List Char × Option (List Char) :=
      match Text.cutAt '=' body with
      | some (name, value) => (name, some value)
      | none => (body, none)
    match rules.find? fun rule => rule.name == String.ofList name with
    | some rule => r.giveOrAwait rule value
    | none => none
  | none, false, '-' :: c :: body =>
    match rules.find? fun rule => rule.short == some c with
    | none => none
    | some rule =>
      match body with
      | [] => r.giveOrAwait rule none
      | '=' :: value => r.giveOrAwait rule (some value)
      | value => r.giveOrAwait rule (some value)
  | none, false, _ => r.operand argument

/-- No option waits for its value. -/
def finished (r : Reading) : Option Reading := if r.awaiting.isNone then some r else none

end Reading

def readAll (rules : List OptionRule) (arguments : List String) : Option Reading :=
  (arguments.foldlM (Reading.step rules) {}).bind Reading.finished

/-- Reads up to the first operand, and gives what follows it. -/
def readToOperand (rules : List OptionRule) :
    Reading → List String → Option (Reading × String × List String)
  | _, [] => none
  | r, argument :: rest =>
    match r.step rules argument with
    | none => none
    | some r =>
      match r.operandsOnly, r.operands with
      | true, _ => none
      | false, [] => readToOperand rules r rest
      | false, operand :: _ => some (r, operand, rest)

/-! ## Commands -/

inductive Layout where
  | table
  | json
deriving DecidableEq

inductive Command where
  /-- Checks the schema and its references. -/
  | validate
  /-- Shows the merged configuration of a path. -/
  | resolve (path : String) (cached : Bool) (layout : Layout)
  /-- Stores the text of a simple property at a path. -/
  | set (path property value : String)
  /-- Deletes the snapshot of a path, or all at it and below it. -/
  | delete (path : String) (below : Bool)
  /-- Lists the stored paths with a segment that has these properties, written `key=value`. -/
  | scopes (name : String) (properties : List String)
  /-- Checks the references of one type or of all types. -/
  | checkReferences (typeName : Option String)
deriving DecidableEq

structure Invocation where
  settings : Option String
  schema : Option String
  command : Command
deriving DecidableEq

def fileRules : List OptionRule :=
  [{ name := "settings", filled := true }, { name := "schema", filled := true }]

/-- The options of a command, given its name. -/
def commandRules : String → Option (List OptionRule)
  | "resolve" =>
    some [{ name := "no-cache", valued := false }, { name := "format", short := some 'f' }]
  | "delete" | "rm" => some [{ name := "children", valued := false }]
  | "scopes" => some [{ name := "property", repeatable := true }]
  | "validate" | "set" | "check-refs" => some []
  | _ => none

def Layout.ofName? : String → Option Layout
  | "table" => some .table
  | "json" => some .json
  | _ => none

def Command.ofReading (name : String) (r : Reading) : Option Command :=
  match name, r.operands with
  | "validate", [] => some .validate
  | "resolve", [path] =>
    (Layout.ofName? ((r.value? "format").getD "table")).map fun layout =>
      .resolve path (!r.has "no-cache") layout
  | "set", [path, property, value] => some (.set path property value)
  | "delete", [path] | "rm", [path] => some (.delete path (r.has "children"))
  | "scopes", [scope] => some (.scopes scope (r.values "property"))
  | "check-refs", [] => some (.checkReferences none)
  | "check-refs", [typeName] => some (.checkReferences (some typeName))
  | _, _ => none

/-- What the arguments ask for, unless they do not fit any command. -/
def Invocation.parse (arguments : List String) : Option Invocation := do
  let (before, name, rest) ← readToOperand fileRules {} arguments
  let after ← readAll (fileRules ++ (← commandRules name)) rest
  let file (option : String) : Option String := (after.value? option).or (before.value? option)
  return ⟨file "settings", file "schema", ← Command.ofReading name after⟩

end ScopedConfig.CommandLine
