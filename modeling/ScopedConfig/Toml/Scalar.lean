import ScopedConfig.Binary64.Shortest
import ScopedConfig.Document

/-!
# TOML scalars

Strings, numbers, dates and the words for truth values. A reader takes the rest of the text and
answers with what it read and what follows, or with the rest of the text at which it gave up.
Numbers and dates begin alike, so they are attempts: one that fails leaves the text to the next one,
unless its beginning is unmistakable.
-/

namespace ScopedConfig

/-! ## Decimal numbers -/

/-- The number `digits · 10 ^ exponent`, kept exactly, with a sign that zero has too. -/
structure Decimal where
  negative : Bool
  digits : Nat
  exponent : Int
deriving DecidableEq

namespace Decimal

/-- The exponent beyond which, on either side, no number is finite or different from zero. -/
def widestExponent : Int := 400

/-- The nearest binary64 number, or `none` past the largest one. -/
def nearest? (d : Decimal) : Option Binary64 :=
  let size := d.exponent + Binary64.digitCount d.digits
  if d.digits = 0 || size < -widestExponent then some (.zero d.negative)
  else if widestExponent < size then none
  else
    let (tenNum, tenDen) := Binary64.powFraction 10 d.exponent
    Binary64.ofQuotient? d.negative (d.digits * tenNum) tenDen

end Decimal

namespace Toml

open Document (Scalar)

/-- The rest of the text. -/
abbrev Rest := List Char

abbrev Reader (α : Type) := Rest → Except Rest (α × Rest)

/-! ## Characters -/

def apostrophe : Char := Char.ofNat 39

def isSpace (c : Char) : Bool := c == ' ' || c == '\t'

def skipSpaces (cs : Rest) : Rest := cs.dropWhile isSpace

/-- Tabs and everything that is not a control character. -/
def isVisible (c : Char) : Bool := c == '\t' || (32 ≤ c.toNat && c.toNat != 127)

/-- What follows a line feed, which a carriage return may stand before. -/
def afterNewline? : Rest → Option Rest
  | '\n' :: rest => some rest
  | '\r' :: '\n' :: rest => some rest
  | _ => none

/-- What follows a word at the start. -/
def after? (word : String) (cs : Rest) : Option Rest :=
  if word.toList.isPrefixOf cs then some (cs.drop word.length) else none

/-! ## Strings -/

def simpleEscape? : Char → Option Char
  | 'b' => some (Char.ofNat 8)
  | 't' => some '\t'
  | 'n' => some '\n'
  | 'f' => some (Char.ofNat 12)
  | 'r' => some '\r'
  | '"' => some '"'
  | '\\' => some '\\'
  | _ => none

/-- The character whose code point is written with so many hexadecimal digits. -/
def readCodePoint (count : Nat) : Reader Char := fun cs =>
  let digits := cs.take count
  let n := Text.valueOf 16 digits
  if digits.length = count && digits.all (Text.isDigitOf 16) &&
      (n < 0xD800 || (0xDFFF < n && n < 0x110000)) then
    .ok (Char.ofNat n, cs.drop count)
  else .error cs

/-- What stands after a backslash. A character that makes no escape is passed over first. -/
def readEscape : Reader Char
  | [] => .error []
  | 'u' :: rest => readCodePoint 4 rest
  | 'U' :: rest => readCodePoint 8 rest
  | c :: rest =>
    match simpleEscape? c with
    | some x => .ok (x, rest)
    | none => .error rest

/-- Reads up to the closing quote on the same line. -/
def lineString (quote : Char) (escapes : Bool) : Nat → Reader (List Char)
  | 0, cs => .error cs
  | _, [] => .error []
  | fuel + 1, c :: rest =>
    if c = quote then .ok ([], rest)
    else if escapes && c = '\\' then do
      let (x, rest) ← readEscape rest
      let (s, rest) ← lineString quote escapes fuel rest
      return (x :: s, rest)
    else if isVisible c then do
      let (s, rest) ← lineString quote escapes fuel rest
      return (c :: s, rest)
    else .error (c :: rest)

/-- Drops spaces and line ends. -/
def skipLines : Nat → Rest → Rest
  | 0, cs => cs
  | fuel + 1, cs =>
    let cs := skipSpaces cs
    match afterNewline? cs with
    | some rest => skipLines fuel rest
    | none => cs

/-- What follows the blanks after a backslash at the end of a line. -/
def afterLineEnd? (cs : Rest) : Option Rest :=
  (afterNewline? (skipSpaces cs)).map fun rest => skipLines rest.length rest

/-- Reads up to three closing quotes; up to two more quotes before them belong to the string. A line
end counts as a line feed. -/
def blockString (quote : Char) (escapes : Bool) : Nat → Reader (List Char)
  | 0, cs => .error cs
  | _, [] => .error []
  | fuel + 1, c :: rest =>
    let run := ((c :: rest).takeWhile (· == quote)).length
    if 3 ≤ run then
      let inner := min (run - 3) 2
      .ok (List.replicate inner quote, (c :: rest).drop (inner + 3))
    else if escapes && c = '\\' then
      match afterLineEnd? rest with
      | some rest => blockString quote escapes fuel rest
      | none => do
        let (x, rest) ← readEscape rest
        let (s, rest) ← blockString quote escapes fuel rest
        return (x :: s, rest)
    else
      match afterNewline? (c :: rest) with
      | some rest => do
        let (s, rest) ← blockString quote escapes fuel rest
        return ('\n' :: s, rest)
      | none =>
        if isVisible c then do
          let (s, rest) ← blockString quote escapes fuel rest
          return (c :: s, rest)
        else .error (c :: rest)

/-- A string on one line, after its opening quote. -/
def readLineString (quote : Char) : Reader String := fun cs => do
  let (s, rest) ← lineString quote (quote == '"') (cs.length + 1) cs
  return (String.ofList s, rest)

/-- A string between three quotes, after the opening ones. A line end right after them is no part
of it. -/
def readBlockString (quote : Char) : Reader String := fun cs => do
  let cs := (afterNewline? cs).getD cs
  let (s, rest) ← blockString quote (quote == '"') (cs.length + 1) cs
  return (String.ofList s, rest)

/-- A string of any form. -/
def readString (quote : Char) : Reader String := fun cs =>
  match after? (String.ofList [quote, quote, quote]) cs with
  | some rest => readBlockString quote rest
  | none => readLineString quote (cs.drop 1)

/-! ## Attempts -/

/-- Why something was not read. -/
inductive Miss where
  /-- Something else may stand here. -/
  | other
  /-- What began here does not go on as it has to. -/
  | broken
deriving DecidableEq

abbrev Attempt (α : Type) := Rest → Except Miss (α × Rest)

/-- Nothing else can stand here any more. -/
def committed {α : Type} (r : Except Miss α) : Except Miss α := r.mapError fun _ => .broken

/-- The second attempt counts where something else may stand. -/
def Attempt.orElse {α : Type} (first second : Attempt α) : Attempt α := fun cs =>
  match first cs with
  | .error .other => second cs
  | r => r

/-- Something that may be missing. -/
def Attempt.optional {α : Type} (a : Attempt α) : Attempt (Option α) := fun cs =>
  match a cs with
  | .ok (x, rest) => .ok (some x, rest)
  | .error .other => .ok (none, cs)
  | .error .broken => .error .broken

def expected (c : Char) : Rest → Except Miss Rest
  | d :: rest => if d = c then .ok rest else .error .other
  | [] => .error .other

/-! ## Digits -/

/-- Digits of the base, where one `_` may stand between two of them. -/
def groupedDigits (base : Nat) : Attempt (List Char)
  | [] => .error .other
  | [c] => if Text.isDigitOf base c then .ok ([c], []) else .error .other
  | c :: '_' :: rest =>
    if Text.isDigitOf base c then
      committed ((groupedDigits base rest).map fun (ds, r) => (c :: ds, r))
    else .error .other
  | c :: d :: rest =>
    if Text.isDigitOf base c then
      if Text.isDigitOf base d then
        (groupedDigits base (d :: rest)).map fun (ds, r) => (c :: ds, r)
      else .ok ([c], d :: rest)
    else .error .other

/-- The digits of a whole number, which do not begin with a needless zero. -/
def wholeDigits : Attempt (List Char) := fun cs =>
  match cs with
  | '0' :: rest => .ok (['0'], rest)
  | _ => groupedDigits 10 cs

/-- A sign and what follows it; without one, the number is positive. -/
def takeSign (cs : Rest) : Bool × Rest :=
  match cs with
  | '-' :: rest => (true, rest)
  | '+' :: rest => (false, rest)
  | _ => (false, cs)

/-! ## Numbers -/

def exponent : Attempt Int := fun cs =>
  match cs with
  | c :: rest =>
    if c = 'e' || c = 'E' then
      let (negative, rest) := takeSign rest
      committed <| (groupedDigits 10 rest).map fun (ds, rest) =>
        let n : Int := Text.valueOf 10 ds
        (if negative then -n else n, rest)
    else .error .other
  | [] => .error .other

def fraction : Attempt (List Char) := fun cs => do
  let rest ← expected '.' cs
  committed (groupedDigits 10 rest)

/-- The text of the nearest number. Too far below zero it is infinite, and too far above it none. -/
def floatText (d : Decimal) : Except Miss String :=
  match d.nearest? with
  | some x => .ok x.plainText
  | none => if d.negative then .ok "-inf" else .error .broken

/-- A number with a fraction or an exponent, or one of the special ones. -/
def float : Attempt Scalar := fun cs => do
  let (negative, body) := takeSign cs
  match after? "inf" body, after? "nan" body with
  | some rest, _ => return (.real (if negative then "-inf" else "inf"), rest)
  | _, some rest => return (.real "NaN", rest)
  | none, none =>
    let (whole, rest) ← wholeDigits body
    let (ds, rest) ← fraction.optional rest
    let (e, rest) ← exponent.optional rest
    if ds.isNone && e.isNone then throw .other
    let ds := ds.getD []
    return (.real (← floatText ⟨negative, Text.valueOf 10 (whole ++ ds), e.getD 0 - ds.length⟩),
      rest)

/-- A whole number, which 64 bits have to hold. -/
def fitting (i : Int) (rest : Rest) : Except Miss (Scalar × Rest) :=
  if Text.fitsInt64 i then .ok (.int i, rest) else .error .broken

/-- A whole number in base ten or after a mark for another base. -/
def integer : Attempt Scalar := fun cs =>
  let based (base : Nat) (digits : Rest) : Except Miss (Scalar × Rest) := do
    let (ds, rest) ← committed (groupedDigits base digits)
    fitting (Text.valueOf base ds) rest
  match cs with
  | '0' :: 'x' :: rest => based 16 rest
  | '0' :: 'o' :: rest => based 8 rest
  | '0' :: 'b' :: rest => based 2 rest
  | _ => do
    let (negative, body) := takeSign cs
    let (ds, rest) ← wholeDigits body
    let n : Int := Text.valueOf 10 ds
    fitting (if negative then -n else n) rest

/-! ## Dates and times -/

/-- A number of exactly so many digits. -/
def fixed (count : Nat) : Attempt Nat := fun cs =>
  let digits := cs.take count
  if digits.length = count && digits.all (Text.isDigitOf 10) then
    .ok (Text.valueOf 10 digits, cs.drop count)
  else .error .other

def daysIn (year month : Nat) : Nat :=
  if month = 2 then
    if year % 4 = 0 && (year % 100 != 0 || year % 400 = 0) then 29 else 28
  else if month = 4 || month = 6 || month = 9 || month = 11 then 30
  else 31

/-- The text between a position and a later one. -/
def between (start stop : Rest) : String :=
  String.ofList (start.take (start.length - stop.length))

/-- A year and a dash begin a date. -/
def date : Attempt String := fun cs => do
  let (year, rest) ← fixed 4 cs
  let rest ← expected '-' rest
  committed do
    let (month, rest) ← fixed 2 rest
    let (day, rest) ← fixed 2 (← expected '-' rest)
    if 1 ≤ month && month ≤ 12 && 1 ≤ day && day ≤ daysIn year month then
      return (between cs rest, rest)
    else throw .broken

/-- The digits of a second's fraction that are kept. -/
def secondFraction (digits : List Char) : String :=
  let kept := ((digits.take 9).reverse.dropWhile (· == '0')).reverse
  if kept.isEmpty then "" else "." ++ String.ofList kept

/-- An hour and a colon begin a time. A point without digits does not belong to it. -/
def time : Attempt String := fun cs => do
  let (hour, rest) ← fixed 2 cs
  if 23 < hour then throw .other
  let rest ← expected ':' rest
  committed do
    let (minute, rest) ← fixed 2 rest
    let (second, rest) ← fixed 2 (← expected ':' rest)
    if 59 < minute || 60 < second then throw .broken
    match rest with
    | '.' :: digits =>
      let ds := digits.takeWhile (Text.isDigitOf 10)
      if ds.isEmpty then return (between cs rest, rest)
      else return (between cs rest ++ secondFraction ds, digits.drop ds.length)
    | _ => return (between cs rest, rest)

/-- A sign begins an offset. One of no length has a plus. -/
def offset : Attempt String := fun cs =>
  match cs with
  | 'Z' :: rest | 'z' :: rest => .ok ("Z", rest)
  | c :: digits =>
    if c = '+' || c = '-' then
      committed do
        let (hour, rest) ← fixed 2 digits
        let (minute, rest) ← fixed 2 (← expected ':' rest)
        if 23 < hour || 59 < minute then throw .broken
        let sign := if hour = 0 && minute = 0 then "+" else String.ofList [c]
        return (sign ++ between digits rest, rest)
    else .error .other
  | [] => .error .other

/-- A time after the mark that divides it from a date, with an offset if it has one. -/
def clock : Attempt String := fun cs =>
  match cs with
  | c :: rest =>
    if c = 'T' || c = 't' || c = ' ' then do
      let (time, rest) ← time rest
      let (offset, rest) ← offset.optional rest
      return ("T" ++ time ++ offset.getD "", rest)
    else .error .other
  | [] => .error .other

/-- A date, a time, or both. -/
def moment : Attempt Scalar :=
  let dated : Attempt String := fun cs => do
    let (day, rest) ← date cs
    let (clock, rest) ← clock.optional rest
    return (day ++ clock.getD "", rest)
  fun cs => (dated.orElse time cs).map fun (shown, rest) => (.moment shown, rest)

/-- What begins with a digit or a sign. -/
def dateOrNumber : Attempt Scalar := moment.orElse (float.orElse integer)

end Toml

end ScopedConfig
