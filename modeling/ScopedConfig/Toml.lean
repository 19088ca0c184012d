import ScopedConfig.Toml.Scalar
import ScopedConfig.Toml.Table

/-!
# TOML documents

`Toml.parse` reads a document into items that know their lines. When the text is not well formed, it
answers with the line at which reading stopped: the line of the offending character, or, for a key
that is defined twice, the line of that definition.
-/

namespace ScopedConfig.Toml

open Document (Item Key)

/-- The line of a position, in a text with so many line feeds. -/
def lineOf (lineFeeds : Nat) (rest : Rest) : Nat := lineFeeds - rest.count '\n' + 1

/-- How many arrays and inline tables may stand inside one another. -/
def nestingLimit : Nat := 79

/-- How many parts a dotted key may have. -/
def keyLimit : Nat := 79

/-! ## Blanks and comments -/

/-- What follows a comment, which ends before the first character that cannot be in it. -/
def afterComment (cs : Rest) : Rest := cs.dropWhile isVisible

/-- The end of a line: blanks, a comment, and a line end or the end of the text. -/
def lineEnd : Reader Unit := fun cs =>
  let cs := skipSpaces cs
  let cs := match cs with
    | '#' :: rest => afterComment rest
    | _ => cs
  match afterNewline? cs, cs with
  | some rest, _ => .ok ((), rest)
  | none, [] => .ok ((), [])
  | none, cs => .error cs

/-- Blanks, line ends and comments between the items of an array. -/
def skipFiller : Nat → Reader Unit
  | 0, cs => .error cs
  | fuel + 1, cs =>
    match skipSpaces cs with
    | '#' :: rest =>
      match afterNewline? (afterComment rest) with
      | some rest => skipFiller fuel rest
      | none => .error (afterComment rest)
    | cs =>
      match cs with
      | '\n' :: _ | '\r' :: _ =>
        match afterNewline? cs with
        | some rest => skipFiller fuel rest
        | none => .error cs
      | cs => .ok ((), cs)

/-! ## Keys -/

def isBareKey (c : Char) : Bool :=
  ('a' ≤ c && c ≤ 'z') || ('A' ≤ c && c ≤ 'Z') || ('0' ≤ c && c ≤ '9') || c == '_' || c == '-'

/-- A key can begin with the character. -/
def startsKey (c : Char) : Bool := isBareKey c || c == '"' || c == apostrophe

/-- One part of a key. -/
def simpleKey (lineFeeds : Nat) : Reader Key := fun cs =>
  let line := lineOf lineFeeds cs
  match cs with
  | [] => .error []
  | c :: rest =>
    if c = '"' || c = apostrophe then do
      let (s, rest) ← readLineString c rest
      return (⟨s, line⟩, rest)
    else
      match (c :: rest).takeWhile isBareKey with
      | [] => .error (c :: rest)
      | name => .ok (⟨String.ofList name, line⟩, (c :: rest).drop name.length)

/-- Parts with points between them. -/
def keyParts (lineFeeds : Nat) : Nat → Reader (List Key)
  | 0, cs => .error cs
  | fuel + 1, cs => do
    let (key, rest) ← simpleKey lineFeeds (skipSpaces cs)
    match skipSpaces rest with
    | '.' :: rest => do
      let (keys, rest) ← keyParts lineFeeds fuel rest
      return (key :: keys, rest)
    | rest => return ([key], rest)

def keys (lineFeeds : Nat) : Reader (List Key) := fun cs => keyParts lineFeeds (cs.length + 1) cs

/-- A dotted key as the path to it and its last part. A key with too many parts is none. -/
def dotted? (keys : List Key) : Option (List Key × Key) :=
  if keyLimit < keys.length then none else keys.getLast?.map fun key => (keys.dropLast, key)

def readKey (lineFeeds : Nat) : Reader (List Key × Key) := fun cs => do
  let (keys, rest) ← keys lineFeeds cs
  match dotted? keys with
  | some key => return (key, rest)
  | none => throw cs

def expect (c : Char) : Reader Unit
  | [] => .error []
  | d :: rest => if d = c then .ok ((), rest) else .error (d :: rest)

/-! ## Values -/

/-- A value can begin with the character. -/
def startsValue (c : Char) : Bool :=
  c == '"' || c == apostrophe || c == '[' || c == '\x7b' || c == '+' || c == '-' || c == '_' ||
    c == '.' || ('0' ≤ c && c ≤ '9') || c == 't' || c == 'f' || c == 'i' || c == 'n'

/-- A value that is no string, array or table. -/
def readPlain (line : Nat) : Reader Item := fun cs =>
  match after? "true" cs, after? "false" cs with
  | some rest, _ => .ok (.scalar line (.bool true), rest)
  | _, some rest => .ok (.scalar line (.bool false), rest)
  | none, none =>
    match dateOrNumber cs with
    | .ok (s, rest) => .ok (.scalar line s, rest)
    | .error _ => .error cs

/-- The pairs of an inline table as its fields. -/
def inlineFields (pairs : List ((List Key × Key) × Item)) : Option (List (Key × Item)) :=
  (pairs.foldlM (fun (cells : Cells) pair => Cells.insert pair.1.1 pair.1.2 pair.2 cells) []).map
    fieldsOf

mutual

/-- A value at the start of the text. Every step takes one from `fuel`, every array or inline table
one from `depth`. -/
def value (lineFeeds : Nat) : (fuel depth : Nat) → Reader Item
  | 0, _, cs => .error cs
  | fuel + 1, depth, cs =>
    let line := lineOf lineFeeds cs
    match cs, depth with
    | [], _ => .error []
    | '[' :: _, 0 | '\x7b' :: _, 0 => .error cs
    | '[' :: ']' :: rest, _ => .ok (.list line false [], rest)
    | '[' :: rest, depth + 1 => do
      let (found, rest) ← items lineFeeds fuel depth rest
      return (.list line false found, rest)
    | '\x7b' :: rest, depth + 1 => do
      let (pairs, after) ← pairs lineFeeds fuel depth true rest
      match inlineFields pairs with
      | none => throw rest
      | some fields => do
        let (_, after) ← expect '\x7d' (skipSpaces after)
        return (.table line fields, after)
    | c :: rest, _ =>
      if c = '"' || c = apostrophe then do
        let (s, rest) ← readString c (c :: rest)
        return (.scalar line (.text s), rest)
      else readPlain line (c :: rest)

/-- The items of an array up to its closing bracket. A comment that does not end well makes the item
before it fail where that item begins. -/
def items (lineFeeds : Nat) : (fuel depth : Nat) → Reader (List Item)
  | 0, _, cs => .error cs
  | fuel + 1, depth, cs => do
    let (_, start) ← skipFiller (cs.length + 1) cs
    match start with
    | [] => throw []
    | c :: _ =>
      if startsValue c then
        let (item, rest) ← value lineFeeds fuel depth start
        match skipFiller (rest.length + 1) rest with
        | .error _ => throw start
        | .ok (_, ',' :: rest) =>
          let (_, next) ← skipFiller (rest.length + 1) rest
          match next with
          | ']' :: rest => return ([item], rest)
          | _ => do
            let (others, rest) ← items lineFeeds fuel depth rest
            return (item :: others, rest)
        | .ok (_, ']' :: rest) => return ([item], rest)
        | .ok (_, rest) => throw rest
      else if c = ']' then return ([], start.drop 1)
      else throw start

/-- The pairs of an inline table, which may not end in a comma. They end before a key with too many
parts. -/
def pairs (lineFeeds : Nat) : (fuel depth : Nat) → (first : Bool) →
    Reader (List ((List Key × Key) × Item))
  | 0, _, _, cs => .error cs
  | fuel + 1, depth, first, cs =>
    let start := if first then cs else cs.drop 1
    match skipSpaces start with
    | [] => .ok ([], cs)
    | c :: _ =>
      if startsKey c then do
        let (parts, rest) ← keys lineFeeds start
        match dotted? parts with
        | none => return ([], cs)
        | some key => do
          let (_, rest) ← expect '=' rest
          let (item, rest) ← value lineFeeds fuel depth (skipSpaces rest)
          match skipSpaces rest with
          | ',' :: rest => do
            let (others, rest) ← pairs lineFeeds fuel depth false (',' :: rest)
            return ((key, item) :: others, rest)
          | rest => return ([(key, item)], rest)
      else .ok ([], cs)

end

/-! ## Lines -/

/-- A header with single or double brackets. -/
def header (lineFeeds : Nat) (tables : Tables) : Reader Tables := fun cs => do
  let line := lineOf lineFeeds cs
  match cs with
  | '[' :: '[' :: rest => do
    let ((path, key), rest) ← readKey lineFeeds rest
    let (_, rest) ← expect ']' rest
    let (_, rest) ← expect ']' rest
    let (_, rest) ← lineEnd rest
    match tables.openRepeated (path ++ [key]) line with
    | some tables => return (tables, rest)
    | none => throw cs
  | _ => do
    let ((path, key), rest) ← readKey lineFeeds (cs.drop 1)
    let (_, rest) ← expect ']' rest
    let (_, rest) ← lineEnd rest
    match tables.openTable (path ++ [key]) line with
    | some tables => return (tables, rest)
    | none => throw cs

/-- A key with its value. -/
def keyValue (lineFeeds : Nat) (tables : Tables) : Reader Tables := fun cs => do
  let ((path, key), rest) ← readKey lineFeeds cs
  let (_, rest) ← expect '=' rest
  let rest := skipSpaces rest
  let (item, rest) ← value lineFeeds (2 * rest.length + 2) nestingLimit rest
  let (_, rest) ← lineEnd rest
  match tables.insert path key item with
  | some tables => return (tables, rest)
  | none => throw cs

def lines (lineFeeds : Nat) : Nat → Tables → Rest → Except Rest Tables
  | 0, _, cs => .error cs
  | fuel + 1, tables, cs =>
    match skipSpaces cs with
    | [] => .ok tables
    | '#' :: rest => do
      let (_, rest) ← lineEnd ('#' :: rest)
      lines lineFeeds fuel tables rest
    | '[' :: rest => do
      let (tables, rest) ← header lineFeeds tables ('[' :: rest)
      lines lineFeeds fuel tables rest
    | cs =>
      match cs with
      | '\n' :: _ | '\r' :: _ =>
        match afterNewline? cs with
        | some rest => lines lineFeeds fuel tables rest
        | none => .error cs
      | cs => do
        let (tables, rest) ← keyValue lineFeeds tables cs
        lines lineFeeds fuel tables rest

/-- The document as a table, or the line at which it stops being one. A byte order mark may stand
before it. -/
def parse (source : String) : Except Nat Item :=
  let all := source.toList
  let lineFeeds := all.count '\n'
  let cs := match all with
    | c :: rest => if c.toNat = 0xFEFF then rest else c :: rest
    | [] => []
  match lines lineFeeds (cs.length + 1) {} cs with
  | .error rest => .error (lineOf lineFeeds rest)
  | .ok tables =>
    match tables.close with
    | none => .error (lineOf lineFeeds [])
    | some root => .ok (.table 1 (fieldsOf root))

end ScopedConfig.Toml
