/-!
# What can be wrong with a scope

The causes for which a segment, a path or a registration is refused, and their wording. Paths and
segments are quoted in their text form.
-/

namespace ScopedConfig.Scope

/-- The part of a segment that a token stands for. -/
inductive Role where
  | scopeName
  | propertyKey
  | propertyValue
deriving DecidableEq

def Role.text : Role → String
  | .scopeName => "scope name"
  | .propertyKey => "scope property key"
  | .propertyValue => "scope property value"

inductive Fault where
  | emptyToken (role : Role)
  | reservedChar (c : Char) (role : Role) (token : String)
  | unclosedProperties (segment : String)
  | pairExpected (segment : String)
  | repeatedKey (key segment : String)
  | noSegments
  | classExpected (found : String)
  | classUnnamed
  | defaultExpected (found : String)
  | repeatedScope (name : String)
  | structuralName (name : String)
  | registeredTwice (name : String)
  | notInRegistry (name path : String)
  | outOfOrder (name path : String)
  | propertyRequired (name key path : String)
  | choicePairExpected (text : String)
  | choiceUnknown (name : String)
  | otherClass (path className expected : String)
deriving DecidableEq

def Fault.message : Fault → String
  | .emptyToken role => "Empty " ++ role.text
  | .reservedChar c role token =>
    "Invalid character '" ++ c.toString ++ "' in " ++ role.text ++ " '" ++ token ++ "'"
  | .unclosedProperties segment => "Unterminated property list in scope segment '" ++ segment ++ "'"
  | .pairExpected segment => "Expected key=value in scope segment '" ++ segment ++ "'"
  | .repeatedKey key segment =>
    "Duplicate property '" ++ key ++ "' in scope segment '" ++ segment ++ "'"
  | .noSegments => "Scope path must contain at least one segment"
  | .classExpected found => "Scope path must start with 'class', found '" ++ found ++ "'"
  | .classUnnamed => "Class scope requires a 'name' property"
  | .defaultExpected found => "Second scope must be 'default', found '" ++ found ++ "'"
  | .repeatedScope name => "Scope '" ++ name ++ "' appears more than once"
  | .structuralName name =>
    "'" ++ name ++ "' is a structural scope and cannot be registered"
  | .registeredTwice name => "Scope '" ++ name ++ "' is already registered"
  | .notInRegistry name path => "Unknown scope '" ++ name ++ "' in " ++ path
  | .outOfOrder name path => "Scope '" ++ name ++ "' is out of order in " ++ path
  | .propertyRequired name key path =>
    "Scope '" ++ name ++ "' requires property '" ++ key ++ "' in " ++ path
  | .choicePairExpected text => "Expected key=value in '" ++ text ++ "'"
  | .choiceUnknown name => "Unknown scope '" ++ name ++ "'"
  | .otherClass path className expected =>
    path ++ " belongs to class '" ++ className ++ "', not '" ++ expected ++ "'"

end ScopedConfig.Scope
