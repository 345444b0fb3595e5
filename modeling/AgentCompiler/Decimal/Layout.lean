import AgentCompiler.Decimal.Shortest

/-!
# Writing decimals

Two ways to write a floating-point value: positionally, with a point and no exponent, and in
scientific notation, with one digit before the point.
-/

namespace AgentCompiler.Decimal

/-- The digits of a number. -/
def digitChars (n : Nat) : List Char := Nat.toDigits 10 n

/-- A natural number as a text. -/
def natural (n : Nat) : String := .ofList (digitChars n)

/-- The exponent of the first digit. -/
def lead (x : Decimal) : Int := x.exponent + (digitChars x.digits).length - 1

/-- A decimal without an exponent. An integer gets a fraction of one zero when `point` asks for it. -/
def positional (x : Decimal) (point : Bool) : List Char :=
  let ds := digitChars x.digits
  if 0 ≤ x.exponent then
    ds ++ List.replicate x.exponent.toNat '0' ++ if point then ['.', '0'] else []
  else
    let places := (-x.exponent).toNat
    let padded := List.replicate (places + 1 - ds.length) '0' ++ ds
    padded.take (padded.length - places) ++ '.' :: padded.drop (padded.length - places)

/-- A decimal with one digit before the point and a signed exponent. -/
def scientific (x : Decimal) : List Char :=
  let lead := x.lead
  let mantissa := match digitChars x.digits with
    | d :: d' :: ds => d :: '.' :: d' :: ds
    | ds => ds
  mantissa ++ 'e' :: (if lead < 0 then '-' else '+') :: digitChars lead.natAbs

/-- The sign of a value. -/
def sign (negative : Bool) : List Char := if negative then ['-'] else []

end AgentCompiler.Decimal

namespace AgentCompiler.Binary64

open Decimal in
/-- The text of a finite value in a document: the shortest decimal, ties going to an even digit. It is
written positionally when its first digit stands at one of the places from `10 ^ -5` to `10 ^ 15`. -/
def documentText (x : Binary64) : List Char :=
  let d := shortest .even x
  sign x.negative ++
    if x.isZero ∨ (-5 ≤ d.lead ∧ d.lead < 16) then d.positional true else d.scientific

open Decimal in
/-- The text of a value as a literal in code: never with an exponent. A whole number is written out to
its last digit with one decimal place, and any other number as its shortest decimal. -/
def codeText (x : Binary64) : List Char :=
  if x.isNan then "NaN".toList
  else if !x.isFinite then sign x.negative ++ "inf".toList
  else
    let (num, den) := x.ratio
    sign x.negative ++
      if num % den = 0 then digitChars (num / den) ++ ['.', '0']
      else (shortest .up x).positional false

end AgentCompiler.Binary64
