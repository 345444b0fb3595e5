/-!
# Types of generated code

A `TypeExpr` says what a field of a generated record holds: a primitive, a container, or a declaration
by its name.
-/

namespace AgentCompiler

/-- A type expression. -/
inductive TypeExpr
  | text
  | integer
  | real
  | truth
  | none
  | any
  /-- A mapping from texts to values of any type. -/
  | map
  | list (item : TypeExpr)
  /-- The type whose only value is one text. -/
  | literal (value : String)
  /-- A declaration, by its name. -/
  | named (name : String)
  | union (variants : List TypeExpr)

namespace TypeExpr

instance : Inhabited TypeExpr := ⟨.any⟩

/-- The type of a schema's type tag; a tag that is not known leaves the value untyped. -/
def ofTag (tag : String) : TypeExpr :=
  match tag with
  | "string" => text
  | "integer" => integer
  | "number" => real
  | "boolean" => truth
  | "null" => none
  | "object" => map
  | _ => any

mutual
/-- Equality of type expressions. -/
def same : TypeExpr → TypeExpr → Bool
  | text, text => true
  | integer, integer => true
  | real, real => true
  | truth, truth => true
  | none, none => true
  | any, any => true
  | map, map => true
  | list a, list b => same a b
  | literal s, literal t => s == t
  | named s, named t => s == t
  | union as, union bs => sameAll as bs
  | _, _ => false
/-- Equality item by item. -/
def sameAll : List TypeExpr → List TypeExpr → Bool
  | [], [] => true
  | a :: as, b :: bs => same a b && sameAll as bs
  | _, _ => false
end

mutual
theorem same_iff : (a b : TypeExpr) → (same a b = true ↔ a = b)
  | list a, b => by cases b <;> simp [same, same_iff a]
  | union as, b => by cases b <;> simp [same, sameAll_iff as]
  | text, b | integer, b | real, b | truth, b | none, b | any, b | map, b | literal _, b
  | named _, b => by cases b <;> simp [same]
theorem sameAll_iff : (as bs : List TypeExpr) → (sameAll as bs = true ↔ as = bs)
  | [], bs => by cases bs <;> simp [sameAll]
  | a :: as, bs => by cases bs <;> simp [sameAll, same_iff a, sameAll_iff as]
end

instance : DecidableEq TypeExpr := fun a b => decidable_of_iff _ (same_iff a b)

end TypeExpr

end AgentCompiler
