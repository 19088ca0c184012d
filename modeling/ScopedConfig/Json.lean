import ScopedConfig.Binary64.Shortest
import ScopedConfig.Keyed
import ScopedConfig.Text

/-!
# JSON values

A value keeps the members of an object in the order in which they stand, repeated keys included.
Whole numbers of 64 bits are told apart from all other numbers.
-/

namespace ScopedConfig

inductive Json where
  | null
  | bool (b : Bool)
  | int (i : Int)
  | real (x : Binary64)
  | str (s : String)
  | arr (items : List Json)
  | obj (members : List (String × Json))

namespace Json

/-! ## Views -/

def strOrNull : Option String → Json
  | none => null
  | some s => str s

/-- The first member with the key. -/
def get? (key : String) : Json → Option Json
  | obj members => members.lookup key
  | _ => none

/-! ## Key order -/

mutual

/-- Every object with its members in key order; of a repeated key the last member stays. -/
def sorted : Json → Json
  | arr items => arr (sortedItems items)
  | obj members => obj (Keyed.ofList (sortedMembers members))
  | j => j

def sortedItems : List Json → List Json
  | [] => []
  | j :: rest => j.sorted :: sortedItems rest

def sortedMembers : List (String × Json) → List (String × Json)
  | [] => []
  | (k, j) :: rest => (k, j.sorted) :: sortedMembers rest

end

/-! ## Nesting -/

mutual

/-- How many arrays and objects stand around the innermost value. -/
def depth : Json → Nat
  | arr items => depthItems items + 1
  | obj members => depthMembers members + 1
  | _ => 0

def depthItems : List Json → Nat
  | [] => 0
  | j :: rest => max j.depth (depthItems rest)

def depthMembers : List (String × Json) → Nat
  | [] => 0
  | (_, j) :: rest => max j.depth (depthMembers rest)

end

end Json

end ScopedConfig
