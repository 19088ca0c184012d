/-!
# Text

Blanks, pieces and whole numbers in text. Everything that looks inside a text works on its list of
characters.
-/

namespace ScopedConfig.Text

/-! ## Blanks -/

/-- The characters with the Unicode property `White_Space`. -/
def isBlank (c : Char) : Bool :=
  let n := c.toNat
  (9 ≤ n && n ≤ 13) || n == 0x20 || n == 0x85 || n == 0xA0 || n == 0x1680 ||
    (0x2000 ≤ n && n ≤ 0x200A) || n == 0x2028 || n == 0x2029 || n == 0x202F || n == 0x205F ||
    n == 0x3000

/-- Drops the blanks at both ends. -/
def trimChars (cs : List Char) : List Char :=
  ((cs.dropWhile isBlank).reverse.dropWhile isBlank).reverse

def trim (s : String) : String := String.ofList (trimChars s.toList)

/-! ## Pieces -/

/-- What stands before and after the first `sep`. -/
def cutAt (sep : Char) : List Char → Option (List Char × List Char)
  | [] => none
  | c :: cs => if c = sep then some ([], cs) else (cutAt sep cs).map fun (a, b) => (c :: a, b)

/-- Everything before a last character that has to be `c`. -/
def dropLast? (c : Char) (cs : List Char) : Option (List Char) :=
  if cs.getLast? = some c then some cs.dropLast else none

/-- The pieces that are not empty. -/
def filledPieces (sep : Char) (cs : List Char) : List (List Char) :=
  (cs.splitOn sep).filter fun p => !p.isEmpty

/-- The pieces with one `sep` between neighbours. -/
def join (sep : Char) (pieces : List String) : String :=
  String.ofList ([sep].intercalate (pieces.map String.toList))

/-- Pads with spaces on the right, and never cuts. -/
def padRight (width : Nat) (s : String) : String :=
  String.ofList (s.toList ++ List.replicate (width - s.length) ' ')

/-- Pads with spaces on the left, and never cuts. -/
def padLeft (width : Nat) (s : String) : String :=
  String.ofList (List.replicate (width - s.length) ' ' ++ s.toList)

/-! ## Lines -/

/-- A line without the carriage return before its line feed. -/
def chompReturn (line : List Char) : List Char :=
  if line.getLast? = some '\r' then line.dropLast else line

/-- The lines of a text. A line feed ends a line, so there is none after the last one; a carriage
return belongs to the line feed that follows it. -/
def linesOf (cs : List Char) : List (List Char) :=
  match (cs.splitOn '\n').reverse with
  | [] => []
  | last :: ended =>
    (ended.map chompReturn).reverse ++ (if last.isEmpty then [] else [last])

/-! ## Whole numbers -/

/-- The value of a digit in bases up to 16. -/
def digit? (c : Char) : Option Nat :=
  if '0' ≤ c && c ≤ '9' then some (c.toNat - '0'.toNat)
  else if 'a' ≤ c && c ≤ 'f' then some (c.toNat - 'a'.toNat + 10)
  else if 'A' ≤ c && c ≤ 'F' then some (c.toNat - 'A'.toNat + 10)
  else none

def isDigitOf (base : Nat) (c : Char) : Bool :=
  match digit? c with
  | some d => d < base
  | none => false

/-- The number that digits write; characters that are no digits count as zero. -/
def valueOf (base : Nat) (digits : List Char) : Nat :=
  digits.foldl (fun n c => n * base + (digit? c).getD 0) 0

def minInt64 : Int := -9223372036854775808

def maxInt64 : Int := 9223372036854775807

def fitsInt64 (i : Int) : Bool := minInt64 ≤ i && i ≤ maxInt64

/-- A signed 64-bit number: one optional sign, then digits only. -/
def readInt64? (cs : List Char) : Option Int :=
  let number (digits : List Char) : Option Nat :=
    if !digits.isEmpty && digits.all (isDigitOf 10) then some (valueOf 10 digits) else none
  let value : Option Int :=
    match cs with
    | '-' :: digits => (number digits).map fun n => -(n : Int)
    | '+' :: digits => (number digits).map Int.ofNat
    | digits => (number digits).map Int.ofNat
  value.filter fitsInt64

end ScopedConfig.Text
