import AgentCompiler.Decimal.Layout
import AgentCompiler.Table

/-!
# JSON values

Objects keep the order of their members. A member is set in place when its key is there already, so a
key that is repeated keeps its first position and its last value.
-/

namespace AgentCompiler

/-- A number of a document: an integer of sixty-four bits, signed or unsigned, or a floating-point
value. -/
inductive Number
  | integer (n : Int)
  | real (x : Binary64)
deriving DecidableEq

namespace Number

/-- An integer as its digits. -/
def intText (n : Int) : List Char :=
  if n < 0 then '-' :: Decimal.digitChars n.natAbs else Decimal.digitChars n.natAbs

/-- The text of a number. -/
def text : Number → List Char
  | integer n => intText n
  | real x => x.documentText

/-- The number as a floating-point value. -/
def toReal : Number → Binary64
  | integer n => .ofInt n
  | real x => x

/-- Two numbers of one value. An integer differs from every floating-point value, and the two zeros
are one value. -/
def same : Number → Number → Bool
  | integer m, integer n => m == n
  | real x, real y => !x.isNan && !y.isNan && (x == y || (x.isZero && y.isZero))
  | _, _ => false

end Number

/-- A JSON value. -/
inductive Json
  | null
  | bool (b : Bool)
  | num (n : Number)
  | str (s : String)
  | arr (items : List Json)
  | obj (members : List (String × Json))

/-- The members of an object, in order. -/
abbrev Members := Table Json

namespace Json

instance : Inhabited Json := ⟨.null⟩

/-- A member of an object; no other value has members. -/
def get? : Json → String → Option Json
  | obj ms, key => ms.lookup key
  | _, _ => none

/-- The text of a string. -/
def string? : Json → Option String
  | str s => some s
  | _ => none

/-- A truth value. -/
def bool? : Json → Option Bool
  | bool b => some b
  | _ => none

/-- The items of an array. -/
def items? : Json → Option (List Json)
  | arr xs => some xs
  | _ => none

/-- The members of an object. -/
def members? : Json → Option Members
  | obj ms => some ms
  | _ => none

/-- A member that is a string. -/
def getString? (j : Json) (key : String) : Option String := (j.get? key).bind string?

/-- A member that is an array. -/
def getItems? (j : Json) (key : String) : Option (List Json) := (j.get? key).bind items?

/-- A member that is an object. -/
def getMembers? (j : Json) (key : String) : Option Members := (j.get? key).bind members?

mutual
/-- Equality of values; the order of an object's members does not matter. -/
def same : Json → Json → Bool
  | null, null => true
  | bool a, bool b => a == b
  | num m, num n => m.same n
  | str s, str t => s == t
  | arr xs, arr ys => sameItems xs ys
  | obj ms, obj ns => ms.length == ns.length && sameMembers ms ns
  | _, _ => false
/-- Equality item by item. -/
def sameItems : List Json → List Json → Bool
  | [], [] => true
  | x :: xs, y :: ys => same x y && sameItems xs ys
  | _, _ => false
/-- Every member has its equal among the members of another object. -/
def sameMembers : List (String × Json) → Members → Bool
  | [], _ => true
  | (k, v) :: ms, ns =>
    (match ns.lookup k with
      | some w => same v w
      | none => false) && sameMembers ms ns
end

end Json

end AgentCompiler
