import ScopedConfig.Keyed
import ScopedConfig.Scope.Fault
import ScopedConfig.Text

/-!
# Scope segments

One named level of a scope path, such as `user[name=alice]`. A token is a text that is not empty and
holds none of the five characters that the text form needs. Segments can be built from any texts;
`Segment.fault?` tells the first token that is not legal.
-/

namespace ScopedConfig.Scope

/-! ## Tokens -/

/-- The characters that the text form of a path needs for itself. -/
def isReserved (c : Char) : Bool :=
  c == '/' || c == '[' || c == ']' || c == '=' || c == ','

def tokenFault? (role : Role) (token : String) : Option Fault :=
  if token.toList.isEmpty then some (.emptyToken role)
  else (token.toList.find? isReserved).map fun c => .reservedChar c role token

/-! ## Segments -/

/-- The properties are sorted by key, so equal segments have equal parts. -/
structure Segment where
  name : String
  properties : List (String × String)
  sorted : Keyed.Sorted properties
deriving DecidableEq

namespace Segment

def ofPairs (name : String) (pairs : List (String × String)) : Segment :=
  ⟨name, Keyed.ofList pairs, Keyed.sorted_ofList pairs⟩

def named (name : String) : Segment := ⟨name, [], Keyed.sorted_nil⟩

def withProperty (name key value : String) : Segment := ofPairs name [(key, value)]

def property? (s : Segment) (key : String) : Option String := s.properties.lookup key

/-- The class and default scopes, which every path begins with. -/
def isStructural (s : Segment) : Bool := s.name == "class" || s.name == "default"

/-- The segment has this name and at least these properties. -/
def carries (s : Segment) (name : String) (properties : List (String × String)) : Bool :=
  s.name == name && properties.all fun (k, v) => s.property? k == some v

/-- The name is looked at first, then the pairs in key order, each key before its value. -/
def fault? (s : Segment) : Option Fault :=
  (tokenFault? .scopeName s.name).or <|
    s.properties.findSome? fun (k, v) =>
      (tokenFault? .propertyKey k).or (tokenFault? .propertyValue v)

/-! ## Text form -/

def pairText (p : String × String) : String := p.1 ++ "=" ++ p.2

def text (s : Segment) : String :=
  if s.properties.isEmpty then s.name
  else s.name ++ "[" ++ Text.join ',' (s.properties.map pairText) ++ "]"

/-- Adds the pairs one by one, and refuses a piece without `=` and a key that is there already. -/
def readPairs (whole : String) :
    List (List Char) → List (String × String) → Except Fault (List (String × String))
  | [], read => .ok read
  | piece :: rest, read =>
    match Text.cutAt '=' piece with
    | none => .error (.pairExpected whole)
    | some (k, v) =>
      let key := String.ofList k
      if (read.lookup key).isSome then .error (.repeatedKey key whole)
      else readPairs whole rest (read ++ [(key, String.ofList v)])

def checked (s : Segment) : Except Fault Segment :=
  match s.fault? with
  | some fault => .error fault
  | none => .ok s

/-- The properties stand between the first `[` and a `]` at the very end; empty pieces between
commas are skipped. All other misuse of the reserved characters shows up as an illegal token. -/
def parse (whole : String) : Except Fault Segment :=
  match Text.cutAt '[' whole.toList with
  | none => checked (named whole)
  | some (name, rest) =>
    match Text.dropLast? ']' rest with
    | none => .error (.unclosedProperties whole)
    | some body => do
      let pairs ← readPairs whole (Text.filledPieces ',' body) []
      checked (ofPairs (String.ofList name) pairs)

/-! ## Order -/

def pairOrder : String × String → String × String → Ordering :=
  compareLex (compareOn Prod.fst) (compareOn Prod.snd)

instance : Std.TransCmp pairOrder := inferInstanceAs (Std.TransCmp (compareLex _ _))

instance : Std.LawfulEqCmp pairOrder where
  eq_of_compare {a b} h := by
    obtain ⟨h₁, h₂⟩ := Ordering.then_eq_eq.1 h
    exact Prod.ext (Std.LawfulEqOrd.eq_of_compare h₁) (Std.LawfulEqOrd.eq_of_compare h₂)

/-- By name, then by the pairs in key order. -/
def order : Segment → Segment → Ordering :=
  compareLex (compareOn Segment.name)
    (fun a b => List.compareLex pairOrder a.properties b.properties)

instance : Ord Segment := ⟨order⟩

instance : Std.TransOrd Segment := by
  have : Std.TransCmp fun a b : Segment =>
      List.compareLex pairOrder a.properties b.properties := by
    have h : Std.TransCmp (List.compareLex pairOrder) := inferInstance
    exact { eq_swap := h.eq_swap, isLE_trans := h.isLE_trans }
  exact inferInstanceAs (Std.TransCmp (compareLex (compareOn Segment.name) _))

instance : Std.LawfulEqOrd Segment where
  eq_of_compare {a b} h := by
    obtain ⟨h₁, h₂⟩ := Ordering.then_eq_eq.1 h
    obtain ⟨n, p, _⟩ := a
    obtain ⟨m, q, _⟩ := b
    have hn : n = m := Std.LawfulEqOrd.eq_of_compare h₁
    have lawful : Std.LawfulEqCmp (List.compareLex pairOrder) := inferInstance
    have hp : p = q := lawful.eq_of_compare h₂
    subst hn hp
    rfl

end Segment

end ScopedConfig.Scope
