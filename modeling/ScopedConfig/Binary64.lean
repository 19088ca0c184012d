/-!
# Binary64 numbers

Finite floating-point numbers with 53 binary digits, and the rounding of quotients to the nearest of
them. Products and quotients are computed exactly and rounded once. There is no infinity: what would
round past the largest number has no result.
-/

namespace ScopedConfig

/-- The number `significand · 2 ^ exponent`, with a sign that zero has too. -/
structure Binary64 where
  negative : Bool
  significand : Nat
  exponent : Int
deriving DecidableEq

namespace Binary64

/-! ## Rounding -/

/-- A quotient of naturals, rounded to the nearest; a half goes to the even neighbour. -/
def roundQuotient (num den : Nat) : Nat :=
  let q := num / den
  let r := num % den
  if 2 * r < den then q
  else if den < 2 * r then q + 1
  else if q % 2 = 0 then q else q + 1

/-- The power `base ^ e` as a fraction. -/
def powFraction (base : Nat) (e : Int) : Nat × Nat :=
  if 0 ≤ e then (Nat.pow base e.toNat, 1) else (1, Nat.pow base (-e).toNat)

/-- Significands stay below `2 ^ 53`. -/
def significandLimit : Nat := 9007199254740992

def leastExponent : Int := -1074

def greatestExponent : Int := 971

def zero (negative : Bool) : Binary64 := ⟨negative, 0, leastExponent⟩

/-- The number nearest to a quotient, of two equally near ones the one with the even significand. -/
def ofQuotient? (negative : Bool) (num den : Nat) : Option Binary64 :=
  let bits : Int := (num.log2 : Int) - (den.log2 : Int)
  -- The quotient has `bits` or `bits + 1` binary digits before rounding.
  let scaled (q : Int) : Nat :=
    let (twoNum, twoDen) := powFraction 2 q
    roundQuotient (num * twoDen) (den * twoNum)
  let q := max (bits - 53) leastExponent
  let q := if scaled q < significandLimit then q else q + 1
  let q := if scaled q < significandLimit then q else q + 1
  if num = 0 then some (zero negative)
  else if greatestExponent < q then none
  else some ⟨negative, scaled q, q⟩

def ofNat? (n : Nat) : Option Binary64 := ofQuotient? false n 1

/-! ## Arithmetic -/

def isZero (x : Binary64) : Bool := x.significand == 0

def negate (x : Binary64) : Binary64 := { x with negative := !x.negative }

def mul? (x y : Binary64) : Option Binary64 :=
  let (twoNum, twoDen) := powFraction 2 (x.exponent + y.exponent)
  ofQuotient? (x.negative != y.negative) (x.significand * y.significand * twoNum) twoDen

/-- There is no quotient by zero. -/
def div? (x y : Binary64) : Option Binary64 :=
  if y.isZero then none
  else
    let (twoNum, twoDen) := powFraction 2 (x.exponent - y.exponent)
    ofQuotient? (x.negative != y.negative) (x.significand * twoNum) (y.significand * twoDen)

/-! ## Powers of ten -/

/-- The last power of ten below the largest number. -/
def greatestTen : Nat := 308

def ten? (e : Nat) : Option Binary64 := ofNat? (Nat.pow 10 e)

/-- Divides so many times by the greatest power of ten, as long as the number is not zero. -/
def lowerGreatly? : Nat → Binary64 → Option Binary64
  | 0, x => some x
  | n + 1, x =>
    if x.isZero then some x else ((ten? greatestTen).bind x.div?).bind (lowerGreatly? n)

/-- Divides by a power of ten. Past the greatest one this takes several divisions, each of which is
rounded. -/
def lower? (x : Binary64) (e : Nat) : Option Binary64 :=
  let times := (e - 1) / greatestTen
  (lowerGreatly? times x).bind fun x => (ten? (e - greatestTen * times)).bind x.div?

/-- Multiplies by a power of ten, or divides by one. -/
def scale? (x : Binary64) (e : Int) : Option Binary64 :=
  if e < 0 then x.lower? (-e).toNat
  else if x.isZero then some x
  else if e ≤ greatestTen then (ten? e.toNat).bind x.mul?
  else none

end Binary64

end ScopedConfig
