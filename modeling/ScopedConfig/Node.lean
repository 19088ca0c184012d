import ScopedConfig.Keyed
import ScopedConfig.Scope.Path

/-!
# Configuration nodes

A snapshot is a tree of nodes: texts, complex nodes with properties, lists, sets and maps. Every
node knows where it was defined, its version, and the scope and version of the node above it when it
was saved. A collection that is absent is not the same as an empty one. The properties of a complex
node, its declared names and the entries of a map are sorted by key.
-/

namespace ScopedConfig

/-- The shape of a node without its content. -/
inductive Kind where
  | simple
  | complex
  | list
  | set
  | map
deriving DecidableEq

def Kind.name : Kind → String
  | .simple => "simple"
  | .complex => "complex"
  | .list => "list"
  | .set => "set"
  | .map => "map"

/-- What a node carries beside its content. -/
structure Info where
  /-- The path of the snapshot that the node was read from. -/
  definedAt : Scope.Path
  typeName : String
  propertyName : Option String := none
  polymorphic : Bool := false
  version : Int := 0
  /-- The name of the scope whose node this one was saved against. -/
  parentScope : Option String := none
  /-- The version that node had then. -/
  parentVersion : Int := 0
deriving DecidableEq

inductive Node where
  | simple (info : Info) (text : Option String)
  /-- The list `declared` names the properties that the node's own scope sets. -/
  | complex (info : Info) (properties : List (String × Node)) (declared : List String)
  | list (info : Info) (items : Option (List Node))
  | set (info : Info) (items : Option (List Node))
  | map (info : Info) (entries : Option (List (String × Node)))

namespace Node

/-! ## Parts -/

def info : Node → Info
  | simple i _ | complex i _ _ | list i _ | set i _ | map i _ => i

def withInfo (i : Info) : Node → Node
  | simple _ t => simple i t
  | complex _ ps ds => complex i ps ds
  | list _ xs => list i xs
  | set _ xs => set i xs
  | map _ es => map i es

@[simp] theorem info_withInfo (i : Info) (n : Node) : (n.withInfo i).info = i := by
  cases n <;> rfl

@[simp] theorem withInfo_info (n : Node) : n.withInfo n.info = n := by
  cases n <;> rfl

def kind : Node → Kind
  | simple .. => .simple
  | complex .. => .complex
  | list .. => .list
  | set .. => .set
  | map .. => .map

@[simp] theorem kind_withInfo (i : Info) (n : Node) : (n.withInfo i).kind = n.kind := by
  cases n <;> rfl

def definedAt (n : Node) : Scope.Path := n.info.definedAt

/-- The name of the scope that the node was defined at. -/
def scopeName (n : Node) : String := n.definedAt.last.name

def version (n : Node) : Int := n.info.version

def typeName (n : Node) : String := n.info.typeName

def text? : Node → Option String
  | simple _ t => t
  | _ => none

def properties? : Node → Option (List (String × Node))
  | complex _ ps _ => some ps
  | _ => none

def declared? : Node → Option (List String)
  | complex _ _ ds => some ds
  | _ => none

/-- The items of a list or set. -/
def items? : Node → Option (List Node)
  | list _ xs | set _ xs => xs
  | _ => none

def entries? : Node → Option (List (String × Node))
  | map _ es => es
  | _ => none

def property? (n : Node) (name : String) : Option Node :=
  n.properties?.bind fun ps => ps.lookup name

/-- A list, set or map that is not there at this level. -/
def isAbsent : Node → Bool
  | list _ none | set _ none | map _ none => true
  | _ => false

/-- Follows the names through complex nodes. -/
def follow : Node → List String → Option Node
  | n, [] => some n
  | n, name :: rest => (n.property? name).bind fun child => child.follow rest

/-- Follows the names between dots. -/
def lookup (n : Node) (dotted : String) : Option Node :=
  n.follow ((dotted.toList.splitOn '.').map String.ofList)

/-! ## Building -/

/-- A complex node without properties. -/
def emptyComplex (scope : Scope.Path) (typeName : String) : Node :=
  complex ⟨scope, typeName, none, false, 0, none, 0⟩ [] []

def withPropertyName (name : String) (n : Node) : Node :=
  n.withInfo { n.info with propertyName := some name }

/-- Sets a property of a complex node, in place of one with the same name, and declares it. -/
def withProperty (n : Node) (name : String) (child : Node) : Node :=
  match n with
  | complex i ps ds =>
    complex i (Keyed.insert name (child.withPropertyName name) ps) (Keyed.insertKey name ds)
  | n => n

/-- Sets a property that comes from a scope above, and leaves the declared names as they are. -/
def withInherited (n : Node) (name : String) (child : Node) : Node :=
  match n with
  | complex i ps ds => complex i (Keyed.insert name (child.withPropertyName name) ps) ds
  | n => n

def withVersion (n : Node) (version : Int) : Node := n.withInfo { n.info with version }

/-- Records the node that this one was saved against. -/
def withParent (n : Node) (scopeName : String) (version : Int) : Node :=
  n.withInfo { n.info with parentScope := some scopeName, parentVersion := version }

def asPolymorphic (n : Node) : Node := n.withInfo { n.info with polymorphic := true }

/-! ## Equality -/

mutual

def decEq : (a b : Node) → Decidable (a = b)
  | simple i t, simple j u => decidable_of_iff (i = j ∧ t = u) (by simp)
  | complex i ps ds, complex j qs es =>
    match decEqFields ps qs with
    | isTrue h => decidable_of_iff (i = j ∧ ds = es) (by simp [h])
    | isFalse h => isFalse (by simp [h])
  | list i none, list j none => decidable_of_iff (i = j) (by simp)
  | list i (some xs), list j (some ys) =>
    match decEqItems xs ys with
    | isTrue h => decidable_of_iff (i = j) (by simp [h])
    | isFalse h => isFalse (by simp [h])
  | set i none, set j none => decidable_of_iff (i = j) (by simp)
  | set i (some xs), set j (some ys) =>
    match decEqItems xs ys with
    | isTrue h => decidable_of_iff (i = j) (by simp [h])
    | isFalse h => isFalse (by simp [h])
  | map i none, map j none => decidable_of_iff (i = j) (by simp)
  | map i (some xs), map j (some ys) =>
    match decEqFields xs ys with
    | isTrue h => decidable_of_iff (i = j) (by simp [h])
    | isFalse h => isFalse (by simp [h])
  | list _ none, list _ (some _) | list _ (some _), list _ none
  | set _ none, set _ (some _) | set _ (some _), set _ none
  | map _ none, map _ (some _) | map _ (some _), map _ none => isFalse (by simp)
  | simple .., complex .. | simple .., list .. | simple .., set .. | simple .., map ..
  | complex .., simple .. | complex .., list .. | complex .., set .. | complex .., map ..
  | list .., simple .. | list .., complex .. | list .., set .. | list .., map ..
  | set .., simple .. | set .., complex .. | set .., list .. | set .., map ..
  | map .., simple .. | map .., complex .. | map .., list .. | map .., set .. =>
    isFalse (by simp)
termination_by structural a => a

def decEqFields : (a b : List (String × Node)) → Decidable (a = b)
  | [], [] => isTrue rfl
  | [], _ :: _ | _ :: _, [] => isFalse (by simp)
  | (k, m) :: as, (l, n) :: bs =>
    match decEq m n, decEqFields as bs with
    | isTrue h, isTrue g => decidable_of_iff (k = l) (by simp [h, g])
    | isFalse h, _ => isFalse (by simp [h])
    | _, isFalse g => isFalse (by simp [g])
termination_by structural a => a

def decEqItems : (a b : List Node) → Decidable (a = b)
  | [], [] => isTrue rfl
  | [], _ :: _ | _ :: _, [] => isFalse (by simp)
  | m :: as, n :: bs =>
    match decEq m n, decEqItems as bs with
    | isTrue h, isTrue g => isTrue (by simp [h, g])
    | isFalse h, _ => isFalse (by simp [h])
    | _, isFalse g => isFalse (by simp [g])
termination_by structural a => a

end

instance : DecidableEq Node := decEq

end Node

end ScopedConfig
