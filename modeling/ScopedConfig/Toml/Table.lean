import ScopedConfig.Document

/-!
# TOML tables under construction

Headers and dotted keys open tables that later lines may go on with, within limits: a header may
complete a table that other headers only passed through, and a dotted key may add to a table that
dotted keys made. Everything else that names a table or a key twice is refused.
-/

namespace ScopedConfig.Toml

open Document (Item Key)

/-- What stands at a key. -/
inductive Cell where
  | value (item : Item)
  /-- The `line` is that of its header; `passed` says that it has none yet, and `dotted` that dotted
  keys made it. -/
  | table (line : Option Nat) (passed dotted : Bool) (cells : List (Key × Cell))
  /-- The tables under headers with double brackets. -/
  | tables (elements : List (Nat × List (Key × Cell)))

abbrev Cells := List (Key × Cell)

namespace Cells

def find? (cells : Cells) (name : String) : Option Cell :=
  (List.find? (fun c => c.1.name == name) cells).map Prod.snd

def remove (cells : Cells) (name : String) : Cells := cells.filter fun c => c.1.name != name

/-- Puts another cell at a key that is there. -/
def replace (cells : Cells) (name : String) (cell : Cell) : Cells :=
  cells.map fun c => if c.1.name == name then (c.1, cell) else c

/-- Goes down along a path of keys, makes the tables that are missing, and changes the last one.
The change is told whether that table was made by dotted keys. For a dotted key, tables with a
header are out of reach. -/
def descend {α : Type} (byDots : Bool) (change : Bool → Cells → Option (α × Cells)) :
    List Key → Bool → Cells → Option (α × Cells)
  | [], dotted, cells => change dotted cells
  | key :: path, _, cells =>
    match cells.find? key.name with
    | none => do
      let (a, inner) ← descend byDots change path byDots []
      return (a, cells ++ [(key, .table none true byDots inner)])
    | some (.table line passed dotted inner) =>
      if byDots && !passed then none
      else do
        let (a, inner) ← descend byDots change path dotted inner
        return (a, cells.replace key.name (.table line passed dotted inner))
    | some (.tables elements) =>
      match elements.getLast? with
      | none => none
      | some (line, inner) => do
        let (a, inner) ← descend byDots change path false inner
        return (a, cells.replace key.name (.tables (elements.dropLast ++ [(line, inner)])))
    | some (.value _) => none

/-- Adds a value under a dotted path. -/
def insert (path : List Key) (key : Key) (item : Item) (cells : Cells) : Option Cells :=
  (descend true (fun dotted inner =>
    if dotted == path.isEmpty || (inner.find? key.name).isSome then none
    else some ((), inner ++ [(key, Cell.value item)])) path false cells).map Prod.snd

end Cells

/-! ## From cells to items -/

mutual

/-- A table without a header counts from the line of its key. -/
def Cell.toItem (keyLine : Nat) : Cell → Item
  | .value item => item
  | .table line _ _ cells => .table (line.getD keyLine) (fieldsOf cells)
  | .tables [] => .list keyLine true []
  | .tables ((line, cells) :: rest) =>
    .list line true (.table line (fieldsOf cells) :: elementsOf rest)

def fieldsOf : List (Key × Cell) → List (Key × Item)
  | [] => []
  | (key, cell) :: rest => (key, cell.toItem key.line) :: fieldsOf rest

def elementsOf : List (Nat × List (Key × Cell)) → List Item
  | [] => []
  | (line, cells) :: rest => .table line (fieldsOf cells) :: elementsOf rest

end

/-! ## The table that lines are added to -/

/-- The tables that are complete, and the one that the last header opened, which joins them at the
next header. -/
structure Tables where
  root : Cells := []
  path : List Key := []
  line : Nat := 1
  /-- The header has double brackets. -/
  repeated : Bool := false
  cells : Cells := []

namespace Tables

/-- Adds a value to the open table. -/
def insert (t : Tables) (path : List Key) (key : Key) (item : Item) : Option Tables :=
  (t.cells.insert path key item).map fun cells => { t with cells }

/-- The root with the open table put in its place. -/
def close (t : Tables) : Option Cells :=
  match t.path.getLast? with
  | none => some t.cells
  | some key =>
    (Cells.descend false (fun _ inner =>
      match inner.find? key.name, t.repeated with
      | none, true => some ((), inner ++ [(key, .tables [(t.line, t.cells)])])
      | some (.tables elements), true =>
        some ((), inner.replace key.name (.tables (elements ++ [(t.line, t.cells)])))
      | none, false => some ((), inner ++ [(key, .table (some t.line) false false t.cells)])
      | some (.table _ true _ _), false =>
        some ((), inner.replace key.name (.table (some t.line) false false t.cells))
      | _, _ => none) t.path.dropLast false t.root).map Prod.snd

/-- Opens the table of a header. A table that was only passed through is gone on with, and moves to
the end of its parent. -/
def openTable (t : Tables) (path : List Key) (line : Nat) : Option Tables := do
  let root ← t.close
  let key ← path.getLast?
  let (cells, root) ← Cells.descend false (fun _ inner =>
    match inner.find? key.name with
    | none => some ([], inner)
    | some (.table _ true false cells) => some (cells, inner.remove key.name)
    | _ => none) path.dropLast false root
  return ⟨root, path, line, false, cells⟩

/-- Opens one more table of a header with double brackets. -/
def openRepeated (t : Tables) (path : List Key) (line : Nat) : Option Tables := do
  let root ← t.close
  let key ← path.getLast?
  let (_, root) ← Cells.descend false (fun _ inner =>
    match inner.find? key.name with
    | none => some ((), inner ++ [(key, .tables [])])
    | some (.tables _) => some ((), inner)
    | _ => none) path.dropLast false root
  return ⟨root, path, line, true, []⟩

end Tables

end ScopedConfig.Toml
