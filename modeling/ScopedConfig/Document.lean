import ScopedConfig.Decode
import ScopedConfig.FileFault
import ScopedConfig.Node.JsonForm

/-!
# Documents

A parsed document, whose values and keys know the lines they begin on, and the readers for records,
lists and single values in it. The first fault counts: the fields of a table are read in the order
in which they stand, and what is missing is noticed after that.
-/

namespace ScopedConfig

open Decode

/-- The format of a document, as far as faults show it. -/
inductive Format where
  | json
  | toml
deriving DecidableEq

namespace Document

inductive Scalar where
  | null
  | bool (b : Bool)
  | int (i : Int)
  | real (shown : String)
  | text (s : String)
  /-- A date, a time or both, as shown. -/
  | moment (shown : String)

/-- What kind of value it is. -/
def Scalar.typeName : Scalar → String
  | null => "null"
  | bool _ => "boolean"
  | int _ => "integer"
  | real _ => "float"
  | text _ => "string"
  | moment _ => "datetime"

structure Key where
  name : String
  line : Nat

inductive Item where
  | scalar (line : Nat) (s : Scalar)
  /-- A list may be written as a row of tables, each under a header of its own. -/
  | list (line : Nat) (headed : Bool) (items : List Item)
  | table (line : Nat) (fields : List (Key × Item))

namespace Item

def line : Item → Nat
  | scalar l _ | list l _ _ | table l _ => l

def found : Item → Found
  | scalar _ .null => .null
  | scalar _ (.bool b) => .bool b
  | scalar _ (.int i) => .int i
  | scalar _ (.real shown) => .real shown
  | scalar _ (.text s) => .text s
  | list .. => .sequence
  | scalar _ (.moment _) | table .. => .map

/-- The fields of a table. A date or time counts as a table that holds its text. -/
def fields? : Item → Option (List (Key × Item))
  | table _ fields => some fields
  | scalar l (.moment shown) =>
    some [(⟨"$__toml_private_datetime", l⟩, scalar l (.text shown))]
  | _ => none

mutual

/-- A JSON value as a document, whose lines do not matter. -/
def ofJson : Json → Item
  | .null => scalar 0 .null
  | .bool b => scalar 0 (.bool b)
  | .int i => scalar 0 (.int i)
  | .real x => scalar 0 (.real x.shortText)
  | .str s => scalar 0 (.text s)
  | .arr items => list 0 false (ofItems items)
  | .obj members => table 0 (ofMembers members)

def ofItems : List Json → List Item
  | [] => []
  | j :: rest => ofJson j :: ofItems rest

def ofMembers : List (String × Json) → List (Key × Item)
  | [] => []
  | (k, j) :: rest => (⟨k, 0⟩, ofJson j) :: ofMembers rest

end

end Item

/-! ## Files -/

/-- A file by its path, with its text. -/
structure Source where
  name : String
  content : Except FileFault String

/-! ## Faults -/

structure Fault where
  line : Nat
  cause : Cause
deriving DecidableEq

/-- A document that could not be read: its text, the line, and the cause, which is missing when the
text does not follow the grammar of its format. -/
structure Report where
  source : String
  line : Nat
  cause : Option Cause
deriving DecidableEq

/-- The lines around a line, numbered and with a mark at that line: at most one before it and two
after it. -/
def around (source : String) (line : Nat) : String :=
  let lines := Text.linesOf source.toList
  let line := min (max line 1) (max lines.length 1)
  let start := line - 2
  let stop := min (line + 2) lines.length
  let shown := ((lines.take stop).drop start).zipIdx.map fun (text, i) =>
    let number := start + i + 1
    (if number = line then ">>>" else "   ") ++ " " ++ Text.padLeft 4 (toString number) ++ " | " ++
      String.ofList text
  "\n".intercalate shown

def Report.message (r : Report) : String :=
  "TOML parsing error at line " ++ toString r.line ++ ":\n" ++ around r.source r.line ++
    "\n\nError: " ++ (r.cause.map Cause.message).getD "malformed document"

/-! ## Single values -/

namespace Item

def mismatch {α : Type} (item : Item) (expected : String) : Except Fault α :=
  .error ⟨item.line, .wrongType item.found expected⟩

/-- A text, which faults call `expected`. -/
def asTextOf (expected : String) : Item → Except Fault String
  | scalar _ (.text s) => .ok s
  | item => item.mismatch expected

def asText (item : Item) : Except Fault String := item.asTextOf "a string"

def asBool : Item → Except Fault Bool
  | scalar _ (.bool b) => .ok b
  | item => item.mismatch "a boolean"

/-- A whole number that counts something. -/
def asSize : Item → Except Fault Nat
  | scalar l (.int i) => if 0 ≤ i then .ok i.toNat else .error ⟨l, .wrongValue (.int i) "usize"⟩
  | item => item.mismatch "usize"

def asTexts : Item → Except Fault (List String)
  | list _ _ items => items.mapM asText
  | item => item.mismatch "a sequence"

def asPath (item : Item) : Except Fault Scope.Path := do
  let text ← item.asText
  (Scope.Path.parse text).mapError fun f => ⟨item.line, .scope f⟩

/-- A value that may be absent. -/
def asOptional {α : Type} (read : Item → Except Fault α) : Item → Except Fault (Option α)
  | scalar _ .null => .ok none
  | item => (read item).map some

/-- The fields of a table with free keys. -/
def asFields (item : Item) : Except Fault (List (Key × Item)) :=
  match item.fields? with
  | some fields => .ok fields
  | none => item.mismatch "a map"

/-- One of the names, given as a text or as the only key of a table with an empty value. -/
def asVariant {α : Type} (format : Format) (names : List String) (ofName? : String → Option α)
    (item : Item) : Except Fault α :=
  let choose (line : Nat) (name : String) : Except Fault α :=
    match ofName? name with
    | some a => .ok a
    | none => .error ⟨line, .unknownVariant name names⟩
  match item, format with
  | scalar l (.text s), _ => choose l s
  | table l [], .toml => .error ⟨l, .other "wanted exactly 1 element, found 0 elements"⟩
  | table _ [(key, value)], format => do
    let a ← choose key.line key.name
    match value, format with
    | scalar _ .null, .json => return a
    | value, .json => value.mismatch "unit"
    | list _ _ [], .toml | table _ [], .toml => return a
    | list l true _, .toml => throw ⟨l, .other "expected empty array"⟩
    | list l false _, .toml | table l _, .toml => throw ⟨l, .other "expected empty table"⟩
    | scalar l s, .toml => throw ⟨l, .other ("expected table, found " ++ s.typeName)⟩
  | table l _, .toml => .error ⟨l, .other "wanted exactly 1 element, more than 1 element"⟩
  | table l _, .json => .error ⟨l, .wrongValue .map "map with a single key"⟩
  | item, .json => item.mismatch "string or map"
  | item, .toml => .error ⟨item.line, .other "wanted string or table"⟩

end Item

/-! ## Records -/

/-- The fixed fields of a kind of record, in the order of their declaration. -/
structure Shape where
  name : String
  fields : List String
  /-- Other fields are refused, not passed over. -/
  closed : Bool

namespace Shape

/-- Reads the fields of a table, or the items of a list in the order of the declared fields. -/
def read {δ : Type} (shape : Shape) (step : δ → String → Item → Except Fault δ) (start : δ)
    (item : Item) : Except Fault δ :=
  match item, item.fields? with
  | .list _ _ items, _ =>
    (shape.fields.zip items).foldlM (fun d (name, value) => step d name value) start
  | _, some fields =>
    fields.foldlM (fun d (key, value) =>
      if shape.fields.contains key.name then step d key.name value
      else if shape.closed then .error ⟨key.line, .unknownField key.name shape.fields⟩
      else .ok d) start
  | item, none => item.mismatch ("struct " ++ shape.name)

/-- A field that has to be there. -/
def require {α : Type} (shape : Shape) (item : Item) (name : String) :
    Option α → Except Fault α
  | some a => .ok a
  | none =>
    match item with
    | .list l _ _ =>
      .error ⟨l, .wrongLength (shape.fields.idxOf name)
        ("struct " ++ shape.name ++ " with " ++ elements shape.fields.length)⟩
    | item => .error ⟨item.line, .missingField name⟩

/-- In JSON, a list may not be longer than the declared fields. -/
def checkLength (shape : Shape) (format : Format) (item : Item) : Except Fault Unit :=
  match item, format with
  | .list l _ items, .json =>
    if shape.fields.length < items.length then
      .error ⟨l, .wrongLength items.length "fewer elements in array"⟩
    else .ok ()
  | _, _ => .ok ()

end Shape

end Document

end ScopedConfig
