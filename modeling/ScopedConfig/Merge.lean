import ScopedConfig.Merge.Totals
import ScopedConfig.Schema.Check

/-!
# Merging scope levels

The snapshots of all levels are folded into one node, the most generic first. Each step merges two
complex nodes property by property, under the policies of the schema; a property on one side only is
carried over. `Merge.levels` answers with the node and the stale pairs that were met.
-/

namespace ScopedConfig.Merge

open Schema

/-- What a merge goes by. -/
structure Rules where
  schema : Schema
  strategies : Strategies

/-! ## Single values -/

/-- The child's metadata with the value that the policy gives. -/
def mergeText (rules : Rules) (place : String) (policy : ValuePolicy)
    (parent : Node) (info : Info) (text : Option String) : Except Error Node :=
  match policy with
  | .useChild => .ok (.simple info text)
  | .useParent => .ok parent
  | .strategy name =>
    match rules.strategies.find? name with
    | some combine => .ok (.simple info (combine parent.text? text))
    | none => Error.misuse place (.unknownStrategy name)
  | .merge => Error.misuse place .mergeOfSimple

/-- The value policy that applies above this parent. -/
def effectivePolicy (p : Property) (parent : Node) : ValuePolicy :=
  if defaultsOnly parent then .standard p.kind p.polymorphic else p.policy.value

def effectiveItemPolicy (p : Property) (parent : Node) : ItemPolicy :=
  if defaultsOnly parent then .useChild else p.policy.item

/-- What becomes of a pair of complex nodes. -/
inductive Choice where
  | child
  | parent
  | combine (type : Record)

def chooseComplex (rules : Rules) (place : String) (p : Property) (parent : Node) :
    Except Error Choice :=
  match effectivePolicy p parent with
  | .useChild => .ok .child
  | .useParent => .ok .parent
  | .merge =>
    if p.polymorphic then Error.misuse place .mergeOfPolymorphic
    else (rules.schema.require p.typeName).map .combine
  | .strategy name => Error.misuse place (.strategyOfComplex name)

def chooseItem (rules : Rules) (place : String) (p : Property) (policy : ItemPolicy) :
    Except Error Choice :=
  match policy with
  | .useParent => .ok .parent
  | .useChild => .ok .child
  | .merge =>
    if p.polymorphic || p.itemKind != .complex then Error.misuse place .mergeOfItems
    else (rules.schema.require p.typeName).map .combine

/-- An item that only the child has. -/
def added (p : Property) (child : Node) : Option Node :=
  match p.policy.entryAdded with
  | .add => some child
  | .remove => none

/-- The child item with every property that it lacks taken from the parent item. -/
def backfill (parent child : Node) : Node :=
  match parent, child with
  | .complex _ inherited _, .complex info own declared =>
    .complex info (Keyed.fillFrom inherited own) declared
  | _, _ => child

/-! ## Keys of items -/

def checkItemKind (place : String) (p : Property) (item : Node) : Except Error Unit :=
  if item.kind = p.itemKind.kind then .ok ()
  else .error (.corrupt place (.otherItemKind p.itemKind.kind item.kind item.definedAt))

/-- The items with their keys, in order. -/
def keyItems (rules : Rules) (place : String) (p : Property) :
    List Node → Except Error (List (String × Node))
  | [] => .ok []
  | item :: rest => do
    checkItemKind place p item
    let key ← rules.schema.itemKey p place item
    return (key, item) :: (← keyItems rules place p rest)

def checkEntries (place : String) (p : Property) (entries : List (String × Node)) :
    Except Error Unit :=
  entries.forM fun e => checkItemKind place p e.2

/-- The parent's entries that the child lacks, if they are to be kept; of a repeated key the first
entry. -/
def survivors (p : Property) (parent : List (String × Node)) (childKeys : List String) :
    List (String × Node) :=
  match p.policy.entryRemoved with
  | .remove => []
  | .add =>
    parent.foldl (fun kept e =>
      if childKeys.contains e.1 || (kept.lookup e.1).isSome then kept else kept ++ [e]) []

def checkKinds (place : String) (p : Property) (parent child : Node) : Except Error Unit :=
  if parent.kind ≠ p.kind then
    .error (.corrupt place (.otherKind p.kind "parent" parent.kind parent.definedAt))
  else if child.kind ≠ p.kind then
    .error (.corrupt place (.otherKind p.kind "child" child.kind child.definedAt))
  else .ok ()

/-- Refuses a pair that is not two complex nodes. -/
def checkComplex (place : String) (parent child : Node) : Except Error Unit :=
  if parent.kind = .complex ∧ child.kind = .complex then .ok ()
  else
    .error (.corrupt place
      (.notComplex parent.kind parent.definedAt child.kind child.definedAt))

/-- A complex node with the merged properties of the child, and those of the parent that the child
lacks. -/
def joined (info : Info) (declared : List String) (parent : Node)
    (merged : List (String × Node)) : Node :=
  .complex info (Keyed.fillFrom (parent.properties?.getD []) merged) declared

/-! ## Before the values -/

/-- How far a pair gets before its values are looked at. -/
inductive Verdict where
  /-- The pair is settled: one side is taken as it is. -/
  | settled (node : Node) (stale : Totals)
  /-- The values are merged. -/
  | undecided (stale : Totals)

/-- Refuses a property whose policies or kinds do not fit. An absent collection yields to the other
side, and a stale child is dropped if the property says so. -/
def settle (rules : Rules) (owner place : String) (p : Property) (parent child : Node) :
    Except Error Verdict := do
  p.check owner rules.schema rules.strategies
  checkKinds place p parent child
  if child.isAbsent then return .settled parent .zero
  if parent.isAbsent then return .settled child .zero
  let (dropped, stale) := judge p.policy.stale parent child
  return if dropped then .settled parent stale else .undecided stale

/-! ## Nodes -/

mutual

/-- A declared property that both sides have. -/
def property (rules : Rules) (owner place : String) (p : Property) (parent : Node) :
    Node → Except Error (Node × Totals)
  | .simple info text => do
    match ← settle rules owner place p parent (.simple info text) with
    | .settled node stale => return (node, stale)
    | .undecided stale =>
      return (← mergeText rules place (effectivePolicy p parent) parent info text, stale)
  | .complex info own declared => do
    match ← settle rules owner place p parent (.complex info own declared) with
    | .settled node stale => return (node, stale)
    | .undecided stale =>
      match ← chooseComplex rules place p parent with
      | .child => return (.complex info own declared, stale)
      | .parent => return (parent, stale)
      | .combine type =>
        let (merged, inner) ← properties rules place type (parent.properties?.getD []) own
        return (joined info declared parent merged, stale + inner)
  | .list info own => do
    match ← settle rules owner place p parent (.list info own) with
    | .settled node stale => return (node, stale)
    | .undecided stale =>
      return (if effectivePolicy p parent = .useParent then parent else .list info own, stale)
  | .set info none => do
    match ← settle rules owner place p parent (.set info none) with
    | .settled node stale => return (node, stale)
    | .undecided stale => return (.set info none, stale)
  | .set info (some own) => do
    match ← settle rules owner place p parent (.set info (some own)) with
    | .settled node stale => return (node, stale)
    | .undecided stale =>
      let above ← keyItems rules place p (parent.items?.getD [])
      let keys := (← keyItems rules place p own).map Prod.fst
      let (merged, inner) ← items rules place p (effectiveItemPolicy p parent) above [] keys own
      let kept := (survivors p above keys).map Prod.snd
      return (.set info (some (merged ++ kept)), stale + inner)
  | .map info none => do
    match ← settle rules owner place p parent (.map info none) with
    | .settled node stale => return (node, stale)
    | .undecided stale => return (.map info none, stale)
  | .map info (some own) => do
    match ← settle rules owner place p parent (.map info (some own)) with
    | .settled node stale => return (node, stale)
    | .undecided stale =>
      let above := parent.entries?.getD []
      checkEntries place p above
      checkEntries place p own
      let (merged, inner) ← entries rules place p (effectiveItemPolicy p parent) above own
      let kept := survivors p above (own.map Prod.fst)
      return (.map info (some (Keyed.fillFrom kept merged)), stale + inner)
termination_by structural child => child

/-- The properties of a complex child, each combined with the parent's if there is one. A property
that the type does not declare stays the child's. -/
def properties (rules : Rules) (place : String) (type : Record) (inherited : List (String × Node)) :
    List (String × Node) → Except Error (List (String × Node) × Totals)
  | [] => .ok ([], .zero)
  | (name, child) :: rest => do
    let (node, first) ←
      match inherited.lookup name, type.find? name with
      | some parent, some p => property rules type.name (place ++ "." ++ name) p parent child
      | _, _ => .ok (child, .zero)
    let (nodes, others) ← properties rules place type inherited rest
    return ((name, node) :: nodes, first + others)
termination_by structural own => own

/-- The items of a set that are not in `seen`, by their keys. -/
def items (rules : Rules) (place : String) (p : Property) (policy : ItemPolicy)
    (above : List (String × Node)) (seen : List String) (keys : List String) :
    List Node → Except Error (List Node × Totals)
  | [] => .ok ([], .zero)
  | child :: rest =>
    match keys with
    | [] => .ok ([], .zero)
    | key :: keys => do
      if seen.contains key then items rules place p policy above seen keys rest
      else
        let (kept, first) ← item rules place p policy (above.lookup key) key child
        let (nodes, others) ← items rules place p policy above (key :: seen) keys rest
        return (kept.toList ++ nodes, first + others)
termination_by structural own => own

/-- The entries of a map. -/
def entries (rules : Rules) (place : String) (p : Property) (policy : ItemPolicy)
    (above : List (String × Node)) :
    List (String × Node) → Except Error (List (String × Node) × Totals)
  | [] => .ok ([], .zero)
  | (key, child) :: rest => do
    let (kept, first) ← item rules place p policy (above.lookup key) key child
    let (nodes, others) ← entries rules place p policy above rest
    return ((kept.map fun n => (key, n)).toList ++ nodes, first + others)
termination_by structural own => own

/-- One item or entry with this key: kept or dropped if the parent has none, else combined. -/
def item (rules : Rules) (place : String) (p : Property) (policy : ItemPolicy)
    (parent : Option Node) (key : String) : Node → Except Error (Option Node × Totals)
  | .complex info own declared =>
    match parent with
    | none => .ok (added p (.complex info own declared), .zero)
    | some parent => do
      match ← chooseItem rules (place ++ "[" ++ key ++ "]") p policy with
      | .parent => return (some parent, .zero)
      | .child => return (some (backfill parent (.complex info own declared)), .zero)
      | .combine type =>
        let place := place ++ "[" ++ key ++ "]"
        checkComplex place parent (.complex info own declared)
        let (merged, inner) ← properties rules place type (parent.properties?.getD []) own
        return (some (joined info declared parent merged), inner)
  | child =>
    match parent with
    | none => .ok (added p child, .zero)
    | some parent => do
      match ← chooseItem rules (place ++ "[" ++ key ++ "]") p policy with
      | .parent => return (some parent, .zero)
      | .child => return (some child, .zero)
      | .combine _ =>
        checkComplex (place ++ "[" ++ key ++ "]") parent child
        return (some child, .zero)
termination_by structural child => child

end

/-- Two complex nodes of one type. The result has the child's metadata and declared names. -/
def complex (rules : Rules) (place : String) (type : Record) (parent child : Node) :
    Except Error (Node × Totals) := do
  checkComplex place parent child
  match child with
  | .complex info own declared =>
    let (merged, stale) ← properties rules place type (parent.properties?.getD []) own
    return (joined info declared parent merged, stale)
  | child => return (child, .zero)

/-! ## Levels -/

/-- Merges the levels that are there into what was merged before. -/
def levelsFrom (rules : Rules) (type : Record) :
    Option Node → List (Option Node) → Except Error (Option Node × Totals)
  | merged, [] => .ok (merged, .zero)
  | merged, none :: rest => levelsFrom rules type merged rest
  | none, some level :: rest => levelsFrom rules type (some level) rest
  | some parent, some level :: rest => do
    let (node, first) ← complex rules type.name type parent level
    let (result, others) ← levelsFrom rules type (some node) rest
    return (result, first + others)

/-- Merges the levels, the most generic first. Nothing is merged when no level is there. -/
def levels (rules : Rules) (type : Record) (all : List (Option Node)) :
    Except Error (Option Node × Totals) :=
  levelsFrom rules type none all

/-- What observers are told of a merge that went well: nothing unless some pair was stale. -/
def report? (path : Scope.Path) (stale : Totals) : Option Report :=
  if stale.any then some ⟨path, stale⟩ else none

end ScopedConfig.Merge
