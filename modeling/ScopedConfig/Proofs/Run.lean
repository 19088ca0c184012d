import ScopedConfig.Proofs.Node
import ScopedConfig.Service

/-!
# Runs of a service

A run is a list of calls, from any number of clients, that a service answers one after the other.
-/

namespace ScopedConfig

inductive Call where
  | load (path : Scope.Path) (typeName : String)
  | save (path : Scope.Path) (typeName : String) (node : Node)
  | saveChecked (path : Scope.Path) (typeName : String) (node : Node) (loaded : Int)
  | delete (path : Scope.Path) (below : Bool)
  | deleteMentioning (name : String) (properties : List (String × String))
  | list (name : String) (properties : List (String × String))
  | setCacheEnabled (enabled : Bool)
deriving DecidableEq

/-- The call only turns the cache on or off. -/
def Call.isSwitch : Call → Bool
  | setCacheEnabled _ => true
  | _ => false

def Call.node? : Call → Option Node
  | save _ _ node | saveChecked _ _ node _ => some node
  | _ => none

/-- The keys of the node that is to be stored are in order. -/
def Call.isOrdered (call : Call) : Bool := call.node?.all Node.isOrdered

inductive Value where
  | resolved (resolved : Option Resolved)
  | node (node : Node)
  | count (count : Nat)
  | paths (paths : List Scope.Path)
deriving DecidableEq

/-- What a caller is answered, and what observers of merges are told. -/
structure Reply where
  result : Except Error Value
  report : Option Merge.Report := none

def Answer.reply {α : Type} (value : α → Value) (a : Answer α) : Option Reply × Service :=
  (some ⟨a.result.map value, a.report⟩, a.service)

namespace Service

/-- One call. A switch of the cache is not answered. -/
def step (rules : Rules) (s : Service) : Call → Option Reply × Service
  | .load path typeName => (s.load rules path typeName).reply .resolved
  | .save path typeName node => (s.save rules path typeName node).reply .node
  | .saveChecked path typeName node loaded =>
    (s.saveChecked rules path typeName node loaded).reply .node
  | .delete path below => (s.delete path below).reply .count
  | .deleteMentioning name properties => (s.deleteMentioning name properties).reply .count
  | .list name properties => (s.list name properties).reply .paths
  | .setCacheEnabled enabled => (none, s.setCacheEnabled enabled)

def after (rules : Rules) : Service → List Call → Service
  | s, [] => s
  | s, call :: rest => after rules (s.step rules call).2 rest

/-- What is answered, in order. -/
def replies (rules : Rules) : Service → List Call → List Reply
  | _, [] => []
  | s, call :: rest => (s.step rules call).1.toList ++ replies rules (s.step rules call).2 rest

/-- The service before the calls, between them, and after them. -/
def moments (rules : Rules) : Service → List Call → List Service
  | s, [] => [s]
  | s, call :: rest => s :: moments rules (s.step rules call).2 rest

end Service

/-! ## A small example

One class with one number, a global scope and two users.
-/

namespace Sample

def record : Schema.Record := { name := "App", properties := [.simple "port" "int"] }

def rules : Rules := { schema := .insert .empty record, strategies := .standard }

def global : Scope.Path :=
  ⟨[.withProperty "class" "name" "App", .named "default", .named "global"], by decide⟩

def alice : Scope.Path :=
  ⟨global.segments ++ [.withProperty "user" "name" "alice"], by decide⟩

def bob : Scope.Path :=
  ⟨global.segments ++ [.withProperty "user" "name" "bob"], by decide⟩

def app (port : String) : Node :=
  .complex { definedAt := global, typeName := "App" }
    [("port", .simple { definedAt := global, typeName := "int", propertyName := some "port" }
      (some port))] ["port"]

def save (path : Scope.Path) (port : String) : Call := .save path "App" (app port)

def served (calls : List Call) : Service :=
  (Service.start (.memory .empty) 2).after rules calls

/-- The snapshot of one user is older than the global one. -/
def outdated : Service := served [save global "80", save alice "8080", save global "81"]

end Sample

end ScopedConfig
