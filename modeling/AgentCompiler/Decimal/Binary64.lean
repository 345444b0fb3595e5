/-!
# 64-bit binary floating point

A `Binary64` is a sign and a magnitude of sixty-three bits: eleven of exponent above fifty-two of
fraction. Magnitudes are ordered as the values they stand for, so that the value after a magnitude is
the next magnitude, and the first one with the highest exponent is infinity. All arithmetic is exact
arithmetic on natural numbers, rounded once, half to even.
-/

namespace AgentCompiler

/-- A 64-bit binary floating-point value. -/
structure Binary64 where
  /-- The sign bit. -/
  negative : Bool
  /-- Exponent and fraction as one word. -/
  magnitude : Fin (Nat.pow 2 63)
deriving DecidableEq

namespace Binary64

/-- The magnitude of infinity; the ones above it stand for no number. -/
def infinite : Nat := 2047 * Nat.pow 2 52

/-- The value with a magnitude that is cut off at infinity. -/
def ofMagnitude (negative : Bool) (magnitude : Nat) : Binary64 :=
  ⟨negative, ⟨min magnitude infinite, Nat.lt_of_le_of_lt (Nat.min_le_right _ _) (by decide)⟩⟩

/-- Zero with a sign. -/
def zero (negative : Bool) : Binary64 := ofMagnitude negative 0

/-- Infinity with a sign. -/
def infinity (negative : Bool) : Binary64 := ofMagnitude negative infinite

/-- The value that stands for no number. -/
def nan : Binary64 := ⟨false, ⟨infinite + Nat.pow 2 51, by decide⟩⟩

/-- Neither infinite nor no number. -/
def isFinite (x : Binary64) : Bool := decide (x.magnitude.val < infinite)

/-- Stands for no number. -/
def isNan (x : Binary64) : Bool := decide (infinite < x.magnitude.val)

/-- Zero of either sign. -/
def isZero (x : Binary64) : Bool := decide (x.magnitude.val = 0)

/-- The integer `m` of a finite value `m · 2 ^ q`. -/
def significand (x : Binary64) : Nat :=
  let fraction := x.magnitude.val % Nat.pow 2 52
  if x.magnitude.val < Nat.pow 2 52 then fraction else fraction + Nat.pow 2 52

/-- The exponent `q` of a finite value `m · 2 ^ q`. -/
def scale (x : Binary64) : Int := (max (x.magnitude.val / Nat.pow 2 52) 1 : Nat) - 1075

/-- `base ^ e` as a fraction, for an exponent of either sign. -/
def powerRatio (base : Nat) (e : Int) : Nat × Nat :=
  if e < 0 then (1, base.pow (-e).toNat) else (base.pow e.toNat, 1)

/-- The magnitude of a finite value as a fraction. -/
def ratio (x : Binary64) : Nat × Nat :=
  let (n, d) := powerRatio 2 x.scale
  (x.significand * n, d)

/-- The integer nearest to a fraction, a half going to the even neighbour. -/
def roundHalfEven (num den : Nat) : Nat :=
  let q := num / den
  let r := num % den
  if 2 * r < den then q
  else if den < 2 * r then q + 1
  else q + q % 2

/-- The exponent of the last place of the value nearest to a fraction: the significand has
fifty-three bits, unless the fraction is so small that the least exponent is met. -/
def placeOf (num den : Nat) : Int :=
  let e : Int := (num.log2 : Int) - den.log2 - 52
  let (n, d) := powerRatio 2 e
  let e := if num * d < Nat.pow 2 52 * (den * n) then e - 1 else e
  max e (-1074)

/-- The magnitude nearest to a fraction. The significand is added to the exponent, so that a
significand that was rounded up to a power of two raises the exponent by itself. -/
def nearestMagnitude (num den : Nat) : Nat :=
  if num = 0 then 0
  else
    let e := placeOf num den
    let (n, d) := powerRatio 2 e
    (e + 1074).toNat * Nat.pow 2 52 + roundHalfEven (num * d) (den * n)

/-- The value nearest to a fraction, with a sign. -/
def nearest (negative : Bool) (num den : Nat) : Binary64 :=
  ofMagnitude negative (nearestMagnitude num den)

/-- The value nearest to `digits · 10 ^ e`, with a sign. Exponents far outside the range give
infinity or zero without any arithmetic. -/
def ofDecimal (negative : Bool) (digits : Nat) (e : Int) : Binary64 :=
  let places : Int := (Nat.toDigits 10 digits).length
  if digits = 0 ∨ places + e < -400 then zero negative
  else if 400 < places + e then infinity negative
  else
    let (n, d) := powerRatio 10 e
    nearest negative (digits * n) d

/-- The value nearest to an integer. -/
def ofInt (n : Int) : Binary64 := nearest (decide (n < 0)) n.natAbs 1

/-- The value nearest to `10 ^ k`. -/
def powerOfTen (k : Nat) : Binary64 := nearest false (Nat.pow 10 k) 1

/-- The rounded product of two finite magnitudes. -/
def times (x y : Binary64) : Binary64 :=
  nearest x.negative (x.ratio.1 * y.ratio.1) (x.ratio.2 * y.ratio.2)

/-- The rounded quotient of two finite magnitudes, the second of which is not zero. -/
def dividedBy (x y : Binary64) : Binary64 :=
  nearest x.negative (x.ratio.1 * y.ratio.2) (x.ratio.2 * y.ratio.1)

/-- A value divided by `10 ^ k`, rounding once for each step of up to `10 ^ 308`. -/
def dividedByTens (x : Binary64) : (steps k : Nat) → Binary64
  | 0, _ => x
  | steps + 1, k =>
    if x.isZero then x
    else if k ≤ 308 then x.dividedBy (powerOfTen k)
    else dividedByTens (x.dividedBy (powerOfTen 308)) steps (k - 308)

/-- The significand of a number's text rounded first and scaled by a power of ten afterwards, so that
it is rounded twice; none when the result is too large. Three steps of `10 ^ 308` make any
significand of sixty-four bits zero. -/
def scaled? (negative : Bool) (digits : Nat) (e : Int) : Option Binary64 :=
  let x := nearest negative digits 1
  if e < 0 then some (dividedByTens x 4 (-e).toNat)
  else if x.isZero then some x
  else if 308 < e then none
  else
    let y := x.times (powerOfTen e.toNat)
    if y.isFinite then some y else none

end Binary64

end AgentCompiler
