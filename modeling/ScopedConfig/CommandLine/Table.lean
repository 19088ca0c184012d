import ScopedConfig.Node

/-!
# Tables of nodes

One line for every text and every absent collection in a node: where it stands, its value and the
path that it was defined at. Complex nodes and collections have no lines of their own.
-/

namespace ScopedConfig.CommandLine

structure Row where
  /-- Names after dots, and positions or keys in brackets. -/
  place : String
  value : String
  origin : String
deriving DecidableEq

namespace Row

/-- Wide places and values push the next column to the right. -/
def text (r : Row) : String :=
  Text.padRight 30 r.place ++ " " ++ Text.padRight 30 r.value ++ " " ++ r.origin

def header : Row := ⟨"Property", "Value", "Defined at"⟩

mutual

def ofNode (place : String) : Node → List Row
  | .simple i t => [⟨place, t.getD "-", i.definedAt.text⟩]
  | .complex _ ps _ => ofProperties place ps
  | .list i none | .set i none | .map i none => [⟨place, "(absent)", i.definedAt.text⟩]
  | .list _ (some xs) | .set _ (some xs) => ofItems place 0 xs
  | .map _ (some es) => ofEntries place es

def ofProperties (place : String) : List (String × Node) → List Row
  | [] => []
  | (name, n) :: rest =>
    ofNode (if place.isEmpty then name else place ++ "." ++ name) n ++ ofProperties place rest

def ofItems (place : String) (index : Nat) : List Node → List Row
  | [] => []
  | n :: rest => ofNode (place ++ "[" ++ toString index ++ "]") n ++ ofItems place (index + 1) rest

def ofEntries (place : String) : List (String × Node) → List Row
  | [] => []
  | (key, n) :: rest => ofNode (place ++ "[" ++ key ++ "]") n ++ ofEntries place rest

end

end Row

/-- The lines of the table, under a header and a rule. -/
def tableLines (n : Node) : List String :=
  Row.header.text :: String.ofList (List.replicate 90 '-') :: (Row.ofNode "" n).map Row.text

end ScopedConfig.CommandLine
