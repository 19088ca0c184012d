import ScopedConfig.Json

/-!
# JSON numbers

A number as it is written, and what it stands for. The digits are gathered into a word of 64 bits,
and those that do not fit are left out: in the whole part they still count as places, in the
fraction they do not. The word is then scaled by the exponent in binary64, where each step is
rounded, so the result need not be the number nearest to what is written.
-/

namespace ScopedConfig.Json

/-- A number in its written form; without a point there are no digits of a fraction. -/
structure Literal where
  negative : Bool
  whole : List Char
  fraction : List Char
  exponent : Option Int

namespace Literal

/-! ## Reading -/

def spanDigits (cs : List Char) : List Char × List Char := cs.span (Text.isDigitOf 10)

/-- A zero alone, or digits that do not begin with one. -/
def readWhole? (cs : List Char) : Option (List Char × List Char) :=
  match cs with
  | '0' :: rest => some (['0'], rest)
  | _ =>
    match spanDigits cs with
    | ([], _) => none
    | p => some p

/-- Digits after a point, if there is one. -/
def readFraction? : List Char → Option (List Char × List Char)
  | '.' :: rest =>
    match spanDigits rest with
    | ([], _) => none
    | p => some p
  | cs => some ([], cs)

/-- A signed exponent after `e` or `E`, if there is one. -/
def readExponent? : List Char → Option (Option Int × List Char)
  | c :: rest =>
    if c = 'e' || c = 'E' then
      let (negative, rest) : Bool × List Char :=
        match rest with
        | '-' :: r => (true, r)
        | '+' :: r => (false, r)
        | r => (false, r)
      match spanDigits rest with
      | ([], _) => none
      | (ds, rest) =>
        let n : Int := Text.valueOf 10 ds
        some (some (if negative then -n else n), rest)
    else some (none, c :: rest)
  | [] => some (none, [])

/-- A number at the start of the text, and what follows it. -/
def read? (cs : List Char) : Option (Literal × List Char) := do
  let (negative, cs) : Bool × List Char :=
    match cs with
    | '-' :: rest => (true, rest)
    | cs => (false, cs)
  let (whole, cs) ← readWhole? cs
  let (fraction, cs) ← readFraction? cs
  let (exponent, cs) ← readExponent? cs
  return (⟨negative, whole, fraction, exponent⟩, cs)

/-! ## What it stands for -/

def greatestWord : Nat := 18446744073709551615

/-- A word with as many of the digits at its end as it can take, and the digits left out. -/
def gather (word : Nat) : List Char → Nat × List Char
  | [] => (word, [])
  | c :: rest =>
    let longer := word * 10 + (Text.digit? c).getD 0
    if longer ≤ greatestWord then gather longer rest else (word, c :: rest)

/-- Literals without fraction and exponent are whole numbers if 64 bits hold them; minus zero is
none of these. Nothing stands past the largest binary64 number. -/
def value? (l : Literal) : Option Json :=
  let (word, left) := gather 0 l.whole
  let i : Int := if l.negative then -(word : Int) else word
  if l.fraction.isEmpty && l.exponent.isNone && left.isEmpty && !(l.negative && word == 0) &&
      Text.minInt64 ≤ i then
    some (.int i)
  else do
    let (word, dropped) := gather word l.fraction
    let places : Int := (left.length : Int) - (l.fraction.length - dropped.length : Nat)
    let x ← (← Binary64.ofNat? word).scale? (places + l.exponent.getD 0)
    return .real (if l.negative then x.negate else x)

end Literal

end ScopedConfig.Json
