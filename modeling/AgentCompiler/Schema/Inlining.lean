import AgentCompiler.Schema.Component

/-!
# Schemas that stand alone

A gateway is told the schema of a tool without the document it comes from. So references are replaced
by the components they lead to, a choice by its first branch, and keywords that mean nothing outside an
interface document are left out. A reference that leads nowhere, or into a component that is being
replaced, becomes an untyped object.
-/

namespace AgentCompiler.Schema

/-- Keywords that are left out. -/
def documentOnly : List String :=
  ["nullable", "example", "examples", "xml", "externalDocs", "discriminator", "readOnly", "writeOnly",
    "deprecated", "$schema"]

/-- The schema of any object. -/
def untyped : Json := .obj [("type", .str "object")]

/-- A schema with a description, unless it has one. -/
def describe (description : Option Json) (schema : Json) : Json :=
  match description, schema with
  | some d, .obj ms => if (ms.lookup "description").isSome then schema else .obj (ms ++ [("description", d)])
  | _, _ => schema

mutual
/-- A schema in which `resolve` stands in for every reference. -/
def inlineWith (resolve : String → Json) : Json → Json
  | .obj ms =>
    match reference? ms with
    | some reference => resolve (segment reference)
    | none =>
      match firstBranch resolve "oneOf" ms with
      | some branch => describe (ms.lookup "description") branch
      | none =>
        match firstBranch resolve "anyOf" ms with
        | some branch => describe (ms.lookup "description") branch
        | none => .obj (inlineMembers resolve ms)
  | j => j
/-- The first branch of the choice under a key. -/
def firstBranch (resolve : String → Json) (key : String) : List (String × Json) → Option Json
  | [] => none
  | (k, v) :: ms => if k = key then inlineHead resolve v else firstBranch resolve key ms
/-- The first item of an array. -/
def inlineHead (resolve : String → Json) : Json → Option Json
  | .arr (x :: _) => some (inlineWith resolve x)
  | _ => none
/-- The members of a schema that stay. The value of a keyword is a schema, a mapping or a list of
schemas, or data. -/
def inlineMembers (resolve : String → Json) : List (String × Json) → List (String × Json)
  | [] => []
  | (k, v) :: ms =>
    if documentOnly.contains k then inlineMembers resolve ms
    else if k = "properties" then (k, inlineProperties resolve v) :: inlineMembers resolve ms
    else if k = "items" ∨ k = "additionalProperties" ∨ k = "not" then
      (k, inlineWith resolve v) :: inlineMembers resolve ms
    else if k = "allOf" then (k, inlineParts resolve v) :: inlineMembers resolve ms
    else (k, v) :: inlineMembers resolve ms
/-- An object of schemas. -/
def inlineProperties (resolve : String → Json) : Json → Json
  | .obj ms => .obj (inlineAll resolve ms)
  | j => j
/-- An array of schemas. -/
def inlineParts (resolve : String → Json) : Json → Json
  | .arr xs => .arr (inlineItems resolve xs)
  | j => j
/-- Schemas under names. -/
def inlineAll (resolve : String → Json) : List (String × Json) → List (String × Json)
  | [] => []
  | (k, v) :: ms => (k, inlineWith resolve v) :: inlineAll resolve ms
/-- Schemas in a list. -/
def inlineItems (resolve : String → Json) : List Json → List Json
  | [] => []
  | x :: xs => inlineWith resolve x :: inlineItems resolve xs
end

/-- What stands in for a reference to a component, where `pending` are the components that are being
replaced. A component is never replaced inside itself, so there are at most as many steps as
components. -/
def resolve (components : Members) : (steps : Nat) → (pending : List String) → String → Json
  | 0, _, _ => untyped
  | steps + 1, pending, key =>
    match components.lookup key with
    | some target =>
      if pending.contains key then untyped
      else inlineWith (resolve components steps (key :: pending)) target
    | none => untyped

/-- A schema without references. -/
def inline (components : Members) (schema : Json) : Json :=
  inlineWith (resolve components components.length []) schema

/-! ## Bodies -/

/-- The property that tells a caller which media type a body has. -/
def contentType (mediaType : String) : Json :=
  .obj [("description", .str ("MUST BE SET TO " ++ mediaType)), ("type", .str "string")]

/-- The value of a key, set to a default when it is not there, after a change. -/
def updateMember (ms : Members) (key : String) (default : Json) (f : Json → Json) : Members :=
  Table.insert key (f ((ms.lookup key).getD default)) ms

/-- A body's schema that asks for the content type as well. A schema that is no object becomes the
property `value` of one. -/
def withContentType (schema : Json) (mediaType : String) : Json :=
  let ms := match schema with
    | .obj ms => ms
    | other => [("type", .str "object"), ("properties", .obj [("value", other)])]
  let ms := updateMember ms "properties" (.obj []) fun
    | .obj props => .obj (Table.insert "contentType" (contentType mediaType) props)
    | other => other
  .obj (updateMember ms "required" (.arr []) fun
    | .arr names => .arr (names ++ [.str "contentType"])
    | other => other)

end AgentCompiler.Schema
