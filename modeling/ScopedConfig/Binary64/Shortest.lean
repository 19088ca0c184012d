import ScopedConfig.Binary64

/-!
# The shortest decimal of a binary64 number

The text of a number has the fewest digits that round back to it, and of those the nearest to it. If
two are equally near, the layout says which one counts. All arithmetic is exact.
-/

namespace ScopedConfig.Binary64

/-- Which of two equally near decimals counts. -/
inductive Tie where
  | even
  | up
deriving DecidableEq

/-! ## Digits -/

/-- How many decimal digits a number has; zero has none. -/
def digitCount (n : Nat) : Nat := if n = 0 then 0 else (Nat.toDigits 10 n).length

/-- The quotient rounded to the nearest whole number. -/
def Tie.round (tie : Tie) (num den : Nat) : Nat :=
  match tie with
  | .even => roundQuotient num den
  | .up => (2 * num + den) / (2 * den)

/-- The first grid of `n`, `n + 1`, … digits that has a point which rounds to `m · 2 ^ q`: the point
and its exponent. Of two points the nearer one counts. -/
def shortestFrom (tie : Tie) (m : Nat) (q : Int) (top : Int) : Nat → Nat → Nat × Int
  | 0, _ => (m, 0)
  | fuel + 1, n =>
    let k := top - (n : Int)
    let (twoNum, twoDen) := powFraction 2 (q - 2)
    let (tenNum, tenDen) := powFraction 10 k
    -- Everything is measured in units of `1 / (twoDen * tenDen)`.
    let unit := tenNum * twoDen
    let value := 4 * m * twoNum * tenDen
    let below := if 2 * m = significandLimit ∧ leastExponent < q then 1 else 2
    let low := value - below * twoNum * tenDen
    let high := value + 2 * twoNum * tenDen
    let hits (p : Nat) : Bool :=
      if m % 2 = 0 then low ≤ p * unit && p * unit ≤ high
      else low < p * unit && p * unit < high
    let down := value / unit
    let up := down + 1
    match hits down, hits up with
    | true, true => (tie.round value unit, k)
    | true, false => (down, k)
    | false, true => (up, k)
    | false, false => shortestFrom tie m q top fuel (n + 1)

def dropZeros : Nat → Nat × Int → Nat × Int
  | 0, p => p
  | fuel + 1, (d, k) => if d ≠ 0 ∧ d % 10 = 0 then dropZeros fuel (d / 10, k + 1) else (d, k)

/-- Digits and exponent of the shortest decimal; zero is `(0, 0)`. -/
def shortest (tie : Tie) (x : Binary64) : Nat × Int :=
  let m := x.significand
  if m = 0 then (0, 0)
  else
    let (num, den) := powFraction 2 x.exponent
    let guess : Int := (digitCount (m * num) : Int) - (digitCount den : Int) + 1
    -- `top` is one more than the exponent of the leading digit.
    let tooHigh (t : Int) : Bool :=
      let (tenNum, tenDen) := powFraction 10 (t - 1)
      m * num * tenDen < tenNum * den
    let top :=
      if tooHigh guess then (if tooHigh (guess - 1) then guess - 2 else guess - 1) else guess
    dropZeros 20 (shortestFrom tie m x.exponent top 18 1)

/-! ## Texts -/

def signText (x : Binary64) : String := if x.negative then "-" else ""

/-- All digits, and always a point. -/
def positional (digits : List Char) (exponent : Int) : String :=
  let count : Int := digits.length
  let point := count + exponent
  if 0 ≤ exponent then
    String.ofList (digits ++ List.replicate exponent.toNat '0') ++ ".0"
  else if 0 < point then
    String.ofList (digits.take point.toNat) ++ "." ++ String.ofList (digits.drop point.toNat)
  else
    "0." ++ String.ofList (List.replicate (-point).toNat '0' ++ digits)

/-- One digit before the point, and an exponent with its sign. -/
def scientific (digits : List Char) (exponent : Int) : String :=
  let mantissa :=
    match digits with
    | c :: d :: rest => String.ofList (c :: '.' :: d :: rest)
    | digits => String.ofList digits
  mantissa ++ (if exponent < 0 then "e-" else "e+") ++ toString exponent.natAbs

/-- Positional notation at every size. -/
def plainText (x : Binary64) : String :=
  let (n, exponent) := x.shortest .up
  x.signText ++ positional (Nat.toDigits 10 n) exponent

/-- Positional notation from `0.00001` up to sixteen digits before the point, scientific notation
otherwise. -/
def shortText (x : Binary64) : String :=
  let (n, exponent) := x.shortest .even
  let digits := Nat.toDigits 10 n
  let point : Int := digits.length + exponent
  if n = 0 ∨ (-5 < point ∧ point ≤ 16) then x.signText ++ positional digits exponent
  else x.signText ++ scientific digits (point - 1)

end ScopedConfig.Binary64
