import AgentCompiler.Decimal.Binary64

/-!
# The shortest decimal of a floating-point value

The decimals that are rounded to a value form an interval around it, which holds its ends exactly when
the significand is even. Of the decimals in it with the fewest digits, `shortest` is the one nearest to
the value.
-/

namespace AgentCompiler

/-- A decimal: an integer times a power of ten. -/
structure Decimal where
  /-- The digits as one number. -/
  digits : Nat
  /-- The exponent of the last digit. -/
  exponent : Int
deriving DecidableEq

namespace Decimal

/-- Which of two decimals that are equally near to a value is taken. -/
inductive Tie
  /-- The one with an even last digit. -/
  | even
  /-- The larger one. -/
  | up
deriving DecidableEq

/-- A value `m · 2 ^ q` with its interval, all four times as large and over one denominator: the low
end, the value and the high end. Below a power of two the neighbour is half as far away. -/
structure Interval where
  low : Nat
  value : Nat
  high : Nat
  den : Nat
  /-- Whether the ends belong to the interval. -/
  closed : Bool

/-- The interval of the decimals that are rounded to a finite value. -/
def Interval.of (x : Binary64) : Interval :=
  let m := x.significand
  let (n, d) := Binary64.powerRatio 2 (x.scale - 2)
  let below := if m = Nat.pow 2 52 ∧ -1074 < x.scale then 1 else 2
  ⟨(4 * m - below) * n, 4 * m * n, (4 * m + 2) * n, d, m % 2 = 0⟩

/-- Whether `k` units of `10 ^ e` lie in the interval. -/
def Interval.holds (i : Interval) (k : Nat) (e : Int) : Bool :=
  let (n, d) := Binary64.powerRatio 10 e
  let point := k * n * i.den
  if i.closed then decide (i.low * d ≤ point ∧ point ≤ i.high * d)
  else decide (i.low * d < point ∧ point < i.high * d)

/-- The decimal in the interval with last place `10 ^ e` that is nearest to the value. It is one of the
two neighbours of the value on the grid of that place. -/
def Interval.onGrid (i : Interval) (tie : Tie) (e : Int) : Option Decimal :=
  let (n, d) := Binary64.powerRatio 10 e
  let unit := n * i.den
  let k := i.value * d / unit
  let rest := i.value * d % unit
  let down := i.holds k e
  let up := i.holds (k + 1) e
  if down && (!up || decide (2 * rest < unit) ||
      (decide (2 * rest = unit) && decide (tie = .even ∧ k % 2 = 0))) then some ⟨k, e⟩
  else if up then some ⟨k + 1, e⟩
  else none

/-- The first grid that has a decimal in the interval, `count` places being left to try. -/
def Interval.search (i : Interval) (tie : Tie) : (count : Nat) → (e : Int) → Decimal
  | 0, e => ⟨0, e⟩
  | count + 1, e => (i.onGrid tie e).getD (i.search tie count (e - 1))

/-- A decimal without zeros at the end of its digits. -/
def strip (x : Decimal) : (count : Nat) → Decimal
  | 0 => x
  | count + 1 =>
    if x.digits ≠ 0 ∧ x.digits % 10 = 0 then strip ⟨x.digits / 10, x.exponent + 1⟩ count else x

/-- An exponent that is not below that of the first digit of a positive fraction, and at most three
above it: one bit is a little less than a third of a digit. -/
def firstPlace (num den : Nat) : Int :=
  ((num.log2 : Int) - den.log2 + 1) * 30103 / 100000 + 1

/-- The decimal with the fewest digits that is rounded to a finite value, and of those the nearest one.
Seventeen digits are always enough, and three more cover the guess of the first place. -/
def shortest (tie : Tie) (x : Binary64) : Decimal :=
  if x.isZero then ⟨0, 0⟩
  else
    let i := Interval.of x
    (i.search tie 22 (firstPlace i.value i.den)).strip 22

end Decimal

end AgentCompiler
