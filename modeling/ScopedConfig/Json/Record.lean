import ScopedConfig.Decode
import ScopedConfig.Json

/-!
# Records in JSON

The readers for single values and for records. A record is an object with its fields by name, or an
array with their values in the order of their declaration. The members of an object are read in the
order in which they stand, and what is missing is noticed after that.
-/

namespace ScopedConfig

open Decode

/-! ## Single values -/

namespace Json

def found : Json → Found
  | null => .null
  | bool b => .bool b
  | int i => .int i
  | real x => .real x.shortText
  | str s => .text s
  | arr _ => .sequence
  | obj _ => .map

def asText : Json → Except Cause String
  | str s => .ok s
  | j => .error (.wrongType j.found "a string")

def asTextOrNull : Json → Except Cause (Option String)
  | null => .ok none
  | j => j.asText.map some

def asBool : Json → Except Cause Bool
  | bool b => .ok b
  | j => .error (.wrongType j.found "a boolean")

def asInt64 : Json → Except Cause Int
  | int i => if Text.fitsInt64 i then .ok i else .error (.wrongValue (.int i) "i64")
  | j => .error (.wrongType j.found "i64")

def asTexts : Json → Except Cause (List String)
  | arr items => items.mapM asText
  | j => .error (.wrongType j.found "a sequence")

/-- A field that is read for the first time. -/
def once {α : Type} (name : String) (earlier : Option α) (read : Except Cause α) :
    Except Cause (Option α) :=
  if earlier.isSome then .error (.repeatedField name) else read.map some

end Json

/-! ## Records -/

/-- Where a value stands: in a document itself, or in the content of a node, which is taken in whole
before its kind is known. Faults tell the two apart. -/
inductive Standing where
  | direct
  | within
deriving DecidableEq

/-- The cause for an array with more items than there are fields to read. -/
def Standing.surplus (s : Standing) (length known : Nat) : Cause :=
  .wrongLength length <|
    match s with
    | .direct => "fewer elements in array"
    | .within => elements known ++ " in sequence"

/-- The fields of a kind of record in the order of their declaration. -/
structure RecordForm where
  name : String
  fields : List String

namespace RecordForm

/-- The cause for an array that ends too early. -/
def tooShort (f : RecordForm) (length : Nat) : Cause :=
  .wrongLength length (f.name ++ " with " ++ elements f.fields.length)

/-- The cause for a field that an object does not have, or that an array is too short for. -/
def absent (f : RecordForm) (j : Json) (field : String) : Cause :=
  match j with
  | .arr _ => f.tooShort (f.fields.idxOf field)
  | _ => .missingField field

def require {α : Type} (f : RecordForm) (j : Json) (field : String) : Option α → Except Cause α
  | some a => .ok a
  | none => .error (f.absent j field)

/-- The fields by name, those of an array by their places. -/
def named (f : RecordForm) : Json → Except Cause (List (String × Json))
  | .obj members => .ok members
  | .arr items => .ok (f.fields.zip items)
  | j => .error (.wrongType j.found f.name)

/-- Refuses an array that is too long. -/
def checkLength (f : RecordForm) (s : Standing) : Json → Except Cause Unit
  | .arr items =>
    if f.fields.length < items.length then .error (s.surplus items.length f.fields.length)
    else .ok ()
  | _ => .ok ()

end RecordForm

end ScopedConfig
