import ScopedConfig.Scope.Fault
import ScopedConfig.Text.Quoted

/-!
# Decoding faults

Why a document does not have the form that it should have, whatever format it is written in.
-/

namespace ScopedConfig.Decode

/-- What stands in the document. -/
inductive Found where
  | null
  | bool (b : Bool)
  | int (i : Int)
  /-- A number with a fraction, as its format shows it. -/
  | real (shown : String)
  | text (s : String)
  | sequence
  | map
deriving DecidableEq

def Found.message : Found → String
  | .null => "null"
  | .bool b => "boolean `" ++ (if b then "true" else "false") ++ "`"
  | .int i => "integer `" ++ toString i ++ "`"
  | .real shown => "floating point `" ++ shown ++ "`"
  | .text s => "string " ++ Text.quoted s
  | .sequence => "sequence"
  | .map => "map"

inductive Cause where
  | missingField (name : String)
  | repeatedField (name : String)
  | unknownField (name : String) (known : List String)
  | unknownVariant (name : String) (known : List String)
  | wrongType (found : Found) (expected : String)
  | wrongValue (found : Found) (expected : String)
  | wrongLength (length : Nat) (expected : String)
  | scope (fault : Scope.Fault)
  | other (message : String)
deriving DecidableEq

/-- The names that would have been right. -/
def choices (known : List String) : String :=
  match known.map fun k => "`" ++ k ++ "`" with
  | [] => "there are no fields"
  | [a] => "expected " ++ a
  | [a, b] => "expected " ++ a ++ " or " ++ b
  | names => "expected one of " ++ ", ".intercalate names

/-- How many elements there are, in words. -/
def elements (count : Nat) : String :=
  toString count ++ (if count = 1 then " element" else " elements")

def Cause.message : Cause → String
  | .missingField name => "missing field `" ++ name ++ "`"
  | .repeatedField name => "duplicate field `" ++ name ++ "`"
  | .unknownField name known => "unknown field `" ++ name ++ "`, " ++ choices known
  | .unknownVariant name known => "unknown variant `" ++ name ++ "`, " ++ choices known
  | .wrongType found expected => "invalid type: " ++ found.message ++ ", expected " ++ expected
  | .wrongValue found expected => "invalid value: " ++ found.message ++ ", expected " ++ expected
  | .wrongLength length expected =>
    "invalid length " ++ toString length ++ ", expected " ++ expected
  | .scope fault => "Invalid scope: " ++ fault.message
  | .other message => message

end ScopedConfig.Decode
