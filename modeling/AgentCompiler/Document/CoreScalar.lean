import AgentCompiler.Document.Node

/-!
# Scalars without quotes

What a scalar without quotes stands for where any value may stand: null, a truth value, a number, and
else a text. Integers may be written in base sixteen, eight and two. Digits behind a needless zero are a
text.
-/

namespace AgentCompiler.Document.CoreScalar

/-- The scalar that stands for nothing. -/
def isNull (s : String) : Bool := ["", "~", "null", "Null", "NULL"].contains s

/-- A truth value. -/
def bool? (s : String) : Option Bool :=
  if ["true", "True", "TRUE"].contains s then some true
  else if ["false", "False", "FALSE"].contains s then some false
  else none

/-- The value of a digit of a base. -/
def digit? (base : Nat) (c : Char) : Option Nat :=
  let d :=
    if c.isDigit then some (c.toNat - '0'.toNat)
    else if 'a' ≤ c ∧ c ≤ 'f' then some (c.toNat - 'a'.toNat + 10)
    else if 'A' ≤ c ∧ c ≤ 'F' then some (c.toNat - 'A'.toNat + 10)
    else none
  d.filter (· < base)

/-- Digits of a base as a number. -/
def natural? (base : Nat) : List Char → Option Nat
  | [] => none
  | cs => cs.foldlM (fun n c => (digit? base c).map (n * base + ·)) 0

/-- A natural number, whose base a leading `0x`, `0o` or `0b` tells. -/
def magnitude? (s : List Char) : Option Nat :=
  match s with
  | '0' :: 'x' :: ds => natural? 16 ds
  | '0' :: 'o' :: ds => natural? 8 ds
  | '0' :: 'b' :: ds => natural? 2 ds
  | '0' :: _ :: _ => none
  | ds => natural? 10 ds

/-- The sign of a scalar and what follows it. -/
def splitSign (s : List Char) : Bool × List Char :=
  match s with
  | '-' :: ds => (true, ds)
  | '+' :: ds => (false, ds)
  | ds => (false, ds)

/-- An integer that fits a hundred and twenty-eight bits, with or without a sign. -/
def int? (s : String) : Option Int :=
  let (negative, ds) := splitSign s.toList
  let n := (magnitude? ds).map fun n => if negative then -(n : Int) else n
  n.filter fun n => -(Nat.pow 2 127 : Int) ≤ n ∧ n < Nat.pow 2 128

/-- A natural number; a minus sign is not read, not even in front of zero. -/
def nat? (s : String) : Option Nat :=
  match s.toList with
  | '-' :: _ => none
  | '+' :: ds => magnitude? ds
  | ds => magnitude? ds

/-- A decimal number, with digits before or after the point. -/
def decimal? (s : List Char) : Option Binary64 := do
  let (negative, s) := splitSign s
  let (whole, s) := s.span Char.isDigit
  let (fraction, s) := match s with
    | '.' :: r => r.span Char.isDigit
    | r => ([], r)
  if whole.isEmpty && fraction.isEmpty then none
  let digits := (whole ++ fraction).foldl (fun n c => n * 10 + (c.toNat - '0'.toNat)) 0
  let exponent : Int ← match s with
    | [] => some 0
    | c :: r =>
      if c = 'e' || c = 'E' then
        let (minus, ds) := splitSign r
        (natural? 10 ds).map fun n => if minus then -(n : Int) else n
      else none
  some (.ofDecimal negative digits (exponent - fraction.length))

/-- A floating-point number. A decimal that is too large for one is not read. -/
def real? (s : String) : Option Binary64 :=
  if [".inf", ".Inf", ".INF", "+.inf", "+.Inf", "+.INF"].contains s then some (.infinity false)
  else if ["-.inf", "-.Inf", "-.INF"].contains s then some (.infinity true)
  else if [".nan", ".NaN", ".NAN"].contains s then some .nan
  else (decimal? s.toList).filter Binary64.isFinite

/-- Digits behind a needless zero. -/
def isPaddedDigits (s : List Char) : Bool :=
  match (splitSign s).2 with
  | '0' :: d :: ds => (d :: ds).all Char.isDigit
  | _ => false

/-- What a scalar stands for where any value may stand. An integer that does not fit sixty-four bits is
out of range; with so many digits that it is not read as an integer, it is a floating-point number. -/
def settle (s : String) : Node :=
  if isNull s then .null
  else
    match bool? s, int? s with
    | some b, _ => .bool b
    | none, some n =>
      if -(Nat.pow 2 63 : Int) ≤ n ∧ n < Nat.pow 2 64 then .num (some (.integer n)) else .num none
    | none, none =>
      match if isPaddedDigits s.toList then none else real? s with
      | some x => .num (some (.real x))
      | none => .str (some s)

end AgentCompiler.Document.CoreScalar
