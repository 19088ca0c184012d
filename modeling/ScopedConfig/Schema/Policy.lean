import ScopedConfig.Node
import ScopedConfig.Text

/-!
# Merge policies

How the value of a property at one scope combines with the value above it. Policy names are read
without regard to case, outer blanks, and the choice between `_` and `-`.
-/

namespace ScopedConfig.Schema

/-! ## The policies -/

/-- What happens to a value that was saved against an older parent. -/
inductive StalePolicy where
  | useParent
  | merge
deriving DecidableEq

/-- How parent and child value combine. Which of these are legal depends on the kind. -/
inductive ValuePolicy where
  | useChild
  | useParent
  | merge
  | strategy (name : String)
deriving DecidableEq

/-- The fate of a set item or map entry that only one side has. -/
inductive EntryPolicy where
  | add
  | remove
deriving DecidableEq

/-- How a set item or map entry that both sides have is combined. -/
inductive ItemPolicy where
  | useChild
  | useParent
  | merge
deriving DecidableEq

/-- The shape of collection items. -/
inductive ItemKind where
  | simple
  | complex
deriving DecidableEq

def ItemKind.kind : ItemKind → Kind
  | .simple => .simple
  | .complex => .complex

structure Policy where
  stale : StalePolicy
  value : ValuePolicy
  entryAdded : EntryPolicy
  entryRemoved : EntryPolicy
  item : ItemPolicy
deriving DecidableEq

/-- Only complex values that are not polymorphic are merged unless a property says so. -/
def ValuePolicy.standard : Kind → (polymorphic : Bool) → ValuePolicy
  | .complex, false => .merge
  | _, _ => .useChild

def Policy.standard (kind : Kind) (polymorphic : Bool) : Policy :=
  ⟨.merge, .standard kind polymorphic, .add, .remove, .useChild⟩

/-! ## Faults -/

/-- A policy that does not fit the property it is declared for. -/
inductive Misuse where
  | unknownStrategy (name : String)
  | mergeOfSimple
  | mergeOfPolymorphic
  | strategyOfComplex (name : String)
  | valueOfList (policy : String)
  | mergeOfPolymorphicItems
  | mergeOfSimpleItems
  | identityMissing (typeName : String)
  | mergeOfItems
  | valueOfKeyed
  | entryOfUnkeyed
deriving DecidableEq

def Misuse.message : Misuse → String
  | .unknownStrategy name => "unknown simple-value strategy '" ++ name ++ "'"
  | .mergeOfSimple => "'merge' is not a simple-value policy"
  | .mergeOfPolymorphic => "'merge' is not allowed on a polymorphic property"
  | .strategyOfComplex name => "unknown complex merge policy '" ++ name ++ "'"
  | .valueOfList policy =>
    "list properties only support use-child/use-parent, found '" ++ policy ++ "'"
  | .mergeOfPolymorphicItems => "'merge' is not allowed on polymorphic items"
  | .mergeOfSimpleItems => "'merge' requires complex items"
  | .identityMissing typeName =>
    "set item type '" ++ typeName ++ "' declares no identity property"
  | .mergeOfItems => "'merge' requires complex, non-polymorphic items"
  | .valueOfKeyed => "set and map properties use entry_added, entry_removed and item_merge"
  | .entryOfUnkeyed => "entry and item policies only apply to set and map properties"

inductive PolicyFault where
  | unknownStale (text : String)
  | emptyValue
  | unknownEntry (text : String)
  | unknownItem (text : String)
  /-- The `place` is the property, as its owner and its name. -/
  | misuse (place : String) (misuse : Misuse)
deriving DecidableEq

def PolicyFault.message : PolicyFault → String
  | .unknownStale text => "Unknown staleness policy '" ++ text ++ "'"
  | .emptyValue => "Empty merge policy"
  | .unknownEntry text => "Unknown entry policy '" ++ text ++ "'"
  | .unknownItem text => "Unknown item merge policy '" ++ text ++ "'"
  | .misuse place m => place ++ ": " ++ m.message

/-! ## Names -/

/-- The form in which policy names are compared. -/
def normalName (text : String) : String :=
  String.ofList ((Text.trimChars text.toList).map fun c => if c = '_' then '-' else c.toLower)

def StalePolicy.parse (text : String) : Except PolicyFault StalePolicy :=
  match normalName text with
  | "use-parent" => .ok .useParent
  | "merge" => .ok .merge
  | _ => .error (.unknownStale text)

/-- Any other name is the name of a strategy, in the case in which it is written. -/
def ValuePolicy.parse (text : String) : Except PolicyFault ValuePolicy :=
  match normalName text with
  | "use-child" => .ok .useChild
  | "use-parent" => .ok .useParent
  | "merge" => .ok .merge
  | "" => .error .emptyValue
  | _ => .ok (.strategy (Text.trim text))

def EntryPolicy.parse (text : String) : Except PolicyFault EntryPolicy :=
  match normalName text with
  | "add" => .ok .add
  | "remove" => .ok .remove
  | _ => .error (.unknownEntry text)

def ItemPolicy.parse (text : String) : Except PolicyFault ItemPolicy :=
  match normalName text with
  | "use-child" => .ok .useChild
  | "use-parent" => .ok .useParent
  | "merge" => .ok .merge
  | _ => .error (.unknownItem text)

def ValuePolicy.text : ValuePolicy → String
  | .useChild => "use-child"
  | .useParent => "use-parent"
  | .merge => "merge"
  | .strategy name => name

end ScopedConfig.Schema
