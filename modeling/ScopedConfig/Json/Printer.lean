import ScopedConfig.Json

/-!
# JSON text

Two layouts of one value: on a single line without blanks, and with every item and member on a line
of its own. Only the quote, the backslash and control characters are escaped.
-/

namespace ScopedConfig.Json

/-! ## Strings -/

/-- The four hexadecimal digits of a character below `0x100`. -/
def hex4 (c : Char) : List Char :=
  ['0', '0', Nat.digitChar (c.toNat / 16), Nat.digitChar (c.toNat % 16)]

def escape (c : Char) : List Char :=
  if c = '"' then ['\\', '"']
  else if c = '\\' then ['\\', '\\']
  else if 32 ≤ c.toNat then [c]
  else
    match c.toNat with
    | 8 => ['\\', 'b']
    | 9 => ['\\', 't']
    | 10 => ['\\', 'n']
    | 12 => ['\\', 'f']
    | 13 => ['\\', 'r']
    | _ => '\\' :: 'u' :: hex4 c

def quoted (s : String) : List Char := '"' :: s.toList.flatMap escape ++ ['"']

/-! ## One line -/

mutual

def chars : Json → List Char
  | null => "null".toList
  | bool b => (if b then "true" else "false").toList
  | int i => (toString i).toList
  | real x => x.shortText.toList
  | str s => quoted s
  | arr items => '[' :: itemChars items ++ [']']
  | obj members => '\x7b' :: memberChars members ++ ['\x7d']

def itemChars : List Json → List Char
  | [] => []
  | [j] => j.chars
  | j :: rest => j.chars ++ ',' :: itemChars rest

def memberChars : List (String × Json) → List Char
  | [] => []
  | [(k, j)] => quoted k ++ ':' :: j.chars
  | (k, j) :: rest => quoted k ++ ':' :: j.chars ++ ',' :: memberChars rest

end

def render (j : Json) : String := String.ofList j.chars

/-! ## Many lines -/

/-- The start of a line inside `level` arrays and objects. -/
def newLine (level : Nat) : List Char := '\n' :: List.replicate (2 * level) ' '

mutual

def layout (level : Nat) : Json → List Char
  | arr [] => ['[', ']']
  | obj [] => ['\x7b', '\x7d']
  | arr (j :: rest) => '[' :: layoutItems (level + 1) (j :: rest) ++ newLine level ++ [']']
  | obj (m :: rest) => '\x7b' :: layoutMembers (level + 1) (m :: rest) ++ newLine level ++ ['\x7d']
  | null => "null".toList
  | bool b => (if b then "true" else "false").toList
  | int i => (toString i).toList
  | real x => x.shortText.toList
  | str s => quoted s

def layoutItems (level : Nat) : List Json → List Char
  | [] => []
  | [j] => newLine level ++ j.layout level
  | j :: rest => newLine level ++ j.layout level ++ ',' :: layoutItems level rest

def layoutMembers (level : Nat) : List (String × Json) → List Char
  | [] => []
  | [(k, j)] => newLine level ++ quoted k ++ ':' :: ' ' :: j.layout level
  | (k, j) :: rest =>
    newLine level ++ quoted k ++ ':' :: ' ' :: j.layout level ++ ',' :: layoutMembers level rest

end

def pretty (j : Json) : String := String.ofList (j.layout 0)

end ScopedConfig.Json
