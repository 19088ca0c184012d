import ScopedConfig.Keyed
import ScopedConfig.Text

/-!
# Merge strategies

Named ways to combine the text of a parent with the text of a child, where either may be absent.
-/

namespace ScopedConfig

/-- Takes the parent's text first. -/
abbrev Strategy := Option String → Option String → Option String

namespace Strategy

/-- The child's text, unless it is absent or blank. -/
def nonEmptyChild : Strategy := fun parent child =>
  match child with
  | some c => if (Text.trimChars c.toList).isEmpty then parent else some c
  | none => parent

/-- The trimmed pieces between commas that are not empty. -/
def parts (text : Option String) : List String :=
  match text with
  | none => []
  | some t =>
    ((t.toList.splitOn ',').map fun p => String.ofList (Text.trimChars p)).filter fun p => p != ""

/-- Adds the parts that are not there yet. -/
def addNew (seen : List String) (new : List String) : List String :=
  new.foldl (fun acc p => if acc.contains p then acc else acc ++ [p]) seen

/-- The distinct parts of both texts in order of first appearance, joined by commas. Without any
parts the child's text stays as it is. -/
def concat : Strategy := fun parent child =>
  match addNew (addNew [] (parts parent)) (parts child) with
  | [] => child.or parent
  | values => some (Text.join ',' values)

def readInt? (text : Option String) : Option Int :=
  text.bind fun t => Text.readInt64? (Text.trimChars t.toList)

/-- The chosen one of two whole numbers. A text that is no number loses against a number, and
between two such texts the child's counts. -/
def pickInt (pick : Int → Int → Int) : Strategy := fun parent child =>
  match readInt? parent, readInt? child with
  | some p, some c => some (toString (pick p c))
  | none, some _ => child
  | some _, none => parent
  | none, none => child.or parent

def maxInt : Strategy := pickInt max

def minInt : Strategy := pickInt min

end Strategy

/-- Strategies by name, in the order of their names. -/
structure Strategies where
  table : List (String × Strategy) := []

namespace Strategies

def empty : Strategies := ⟨[]⟩

def register (s : Strategies) (name : String) (strategy : Strategy) : Strategies :=
  ⟨Keyed.insert name strategy s.table⟩

def standard : Strategies :=
  empty |>.register "non-empty-child" Strategy.nonEmptyChild
    |>.register "concat" Strategy.concat
    |>.register "max-int" Strategy.maxInt
    |>.register "min-int" Strategy.minInt

def find? (s : Strategies) (name : String) : Option Strategy := s.table.lookup name

def contains (s : Strategies) (name : String) : Bool := (s.find? name).isSome

def names (s : Strategies) : List String := s.table.map Prod.fst

end Strategies

end ScopedConfig
