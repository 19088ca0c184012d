import ScopedConfig.Json.Number

/-!
# Reading JSON text

`Json.parse` reads a whole text, or as much of it as is wanted. In what is wanted it refuses nesting
deeper than its limit, halves of surrogate pairs and numbers past the largest binary64 number. The
rest only has to follow the grammar.
-/

namespace ScopedConfig.Json

/-! ## What is wanted -/

/-- How much of a value is read. -/
inductive Want where
  | nothing
  | everything
  /-- These members of an object, or the items of an array that stand for them in this order. -/
  | members (fields : List (String × Want))

namespace Want

/-- All that is wanted of a record, whose fields are read whole. -/
def fields (names : List String) : Want := members (names.map fun name => (name, everything))

/-- What is wanted of a member. -/
def member (key : String) : Want → Want
  | members fields => (fields.lookup key).getD nothing
  | w => w

/-- What is wanted of the first item of an array, and of the items after it. -/
def item : Want → Want × Want
  | members ((_, w) :: fields) => (w, members fields)
  | members [] => (everything, members [])
  | w => (w, w)

/-- Nothing below the value is looked at. -/
def isNothing : Want → Bool
  | nothing => true
  | _ => false

end Want

namespace Reader

def skipBlanks (cs : List Char) : List Char :=
  cs.dropWhile fun c => c == ' ' || c == '\n' || c == '\t' || c == '\r'

/-- What follows a word at the start. -/
def after? (word : String) (cs : List Char) : Option (List Char) :=
  if word.toList.isPrefixOf cs then some (cs.drop word.length) else none

/-! ## Strings -/

def hexValue? (a b c d : Char) : Option Nat :=
  if [a, b, c, d].all (Text.isDigitOf 16) then some (Text.valueOf 16 [a, b, c, d]) else none

def simpleEscape? : Char → Option Char
  | '"' => some '"'
  | '\\' => some '\\'
  | '/' => some '/'
  | 'b' => some (Char.ofNat 8)
  | 'f' => some (Char.ofNat 12)
  | 'n' => some '\n'
  | 'r' => some '\r'
  | 't' => some '\t'
  | _ => none

def isHighHalf (n : Nat) : Bool := 0xD800 ≤ n && n < 0xDC00

def isLowHalf (n : Nat) : Bool := 0xDC00 ≤ n && n < 0xE000

/-- The characters up to the closing quote, and what follows it. -/
def stringBody : List Char → Option (List Char × List Char)
  | [] => none
  | '"' :: rest => some ([], rest)
  | '\\' :: 'u' :: a :: b :: c :: d :: rest =>
    match hexValue? a b c d with
    | none => none
    | some high =>
      if isHighHalf high then
        match rest with
        | '\\' :: 'u' :: e :: f :: g :: h :: rest =>
          match hexValue? e f g h with
          | none => none
          | some low =>
            if isLowHalf low then
              (stringBody rest).map fun (s, r) =>
                (Char.ofNat (0x10000 + (high - 0xD800) * 0x400 + (low - 0xDC00)) :: s, r)
            else none
        | _ => none
      else if isLowHalf high then none
      else (stringBody rest).map fun (s, r) => (Char.ofNat high :: s, r)
  | '\\' :: e :: rest =>
    match simpleEscape? e with
    | none => none
    | some c => (stringBody rest).map fun (s, r) => (c :: s, r)
  | c :: rest =>
    if c.toNat < 32 || c = '\\' then none
    else (stringBody rest).map fun (s, r) => (c :: s, r)

/-- What follows the closing quote of a string that is not wanted. -/
def skipString : List Char → Option (List Char)
  | [] => none
  | '"' :: rest => some rest
  | '\\' :: 'u' :: a :: b :: c :: d :: rest =>
    if (hexValue? a b c d).isSome then skipString rest else none
  | '\\' :: e :: rest => if (simpleEscape? e).isSome then skipString rest else none
  | c :: rest => if c.toNat < 32 || c = '\\' then none else skipString rest

def string (want : Want) (cs : List Char) : Option (String × List Char) :=
  if want.isNothing then (skipString cs).map fun r => ("", r)
  else (stringBody cs).map fun (s, r) => (String.ofList s, r)

/-! ## Numbers -/

def number (want : Want) (cs : List Char) : Option (Json × List Char) := do
  let (l, rest) ← Literal.read? cs
  if want.isNothing then return (.null, rest)
  return (← l.value?, rest)

/-! ## Values -/

/-- The depth inside an array or object that is `depth` away from the limit. What is not wanted may
nest without limit. -/
def inner? (want : Want) (depth : Nat) : Option Nat :=
  if want.isNothing then some depth else if depth = 0 then none else some (depth - 1)

mutual

/-- A value at the start of the text, and what follows it. Every step takes one from `fuel`, every
wanted array or object one from `depth`. Values that are not wanted come out as some value. -/
def value (want : Want) : (fuel depth : Nat) → List Char → Option (Json × List Char)
  | 0, _, _ => none
  | fuel + 1, depth, cs =>
    match skipBlanks cs with
    | '"' :: rest => (string want rest).map fun (s, r) => (.str s, r)
    | '[' :: rest =>
      match inner? want depth, skipBlanks rest with
      | none, _ => none
      | _, ']' :: rest => some (.arr [], rest)
      | some depth, rest => (items want fuel depth rest).map fun (js, r) => (.arr js, r)
    | '\x7b' :: rest =>
      match inner? want depth, skipBlanks rest with
      | none, _ => none
      | _, '\x7d' :: rest => some (.obj [], rest)
      | some depth, rest => (members want fuel depth rest).map fun (ms, r) => (.obj ms, r)
    | cs =>
      match after? "null" cs, after? "true" cs, after? "false" cs with
      | some rest, _, _ => some (.null, rest)
      | _, some rest, _ => some (.bool true, rest)
      | _, _, some rest => some (.bool false, rest)
      | _, _, _ => number want cs

/-- Values between commas up to the closing bracket. -/
def items (want : Want) : (fuel depth : Nat) → List Char → Option (List Json × List Char)
  | 0, _, _ => none
  | fuel + 1, depth, cs =>
    match value want.item.1 fuel depth cs with
    | none => none
    | some (j, rest) =>
      match skipBlanks rest with
      | ',' :: rest => (items want.item.2 fuel depth rest).map fun (js, r) => (j :: js, r)
      | ']' :: rest => some ([j], rest)
      | _ => none

/-- Keys with values between commas up to the closing brace. Members that are not wanted are left
out. -/
def members (want : Want) : (fuel depth : Nat) → List Char →
    Option (List (String × Json) × List Char)
  | 0, _, _ => none
  | fuel + 1, depth, cs =>
    match skipBlanks cs with
    | '"' :: rest =>
      match string want rest with
      | none => none
      | some (k, rest) =>
        match skipBlanks rest with
        | ':' :: rest =>
          match value (want.member k) fuel depth rest with
          | none => none
          | some (j, rest) =>
            let found := if (want.member k).isNothing then [] else [(k, j)]
            match skipBlanks rest with
            | ',' :: rest => (members want fuel depth rest).map fun (ms, r) => (found ++ ms, r)
            | '\x7d' :: rest => some (found, rest)
            | _ => none
        | _ => none
    | _ => none

end

end Reader

/-- Reads a text whose wanted part nests at most `depth` arrays and objects. A text of `n`
characters takes fewer than `2 n + 2` steps. -/
def parse (want : Want) (depth : Nat) (text : String) : Option Json :=
  let cs := text.toList
  match Reader.value want (2 * cs.length + 2) depth cs with
  | some (j, rest) => if (Reader.skipBlanks rest).isEmpty then some j else none
  | none => none

end ScopedConfig.Json
