import AgentCompiler.Name.Distinct
import AgentCompiler.Name.Identifier
import AgentCompiler.Typing.TypeExpr

/-!
# Declarations of generated code

A record declares fields, a union gives a name to a choice of types. The fields of a record have
distinct names; a field whose name is not that of its property keeps the property as an alias.
-/

namespace AgentCompiler

/-- A field of a record. -/
structure Field where
  /-- The name of the attribute, an identifier. -/
  name : String
  /-- The property, where its name differs. -/
  aliasName : Option String
  type : TypeExpr
  required : Bool
  description : Option String
deriving DecidableEq

namespace Field

/-- The property under which the field is read and written. -/
def wireName (f : Field) : String := f.aliasName.getD f.name

/-- An identifier for a property that is none: its cleaned name, behind which an underscore keeps it
apart from a reserved word. -/
def attributeName (property : String) : String :=
  let cleaned := Name.snake property
  if Name.isIdentifier cleaned then cleaned else cleaned ++ "_"

/-- The field of a property. An empty description is none. -/
def ofProperty (property : String) (type : TypeExpr) (required : Bool)
    (description : Option String) : Field :=
  let description := description.filter (!·.isEmpty)
  if Name.isIdentifier property then ⟨property, none, type, required, description⟩
  else ⟨attributeName property, some property, type, required, description⟩

/-- The field under another name, where a name it had without an alias becomes its alias. -/
def rename (f : Field) (name : String) : Field :=
  if f.name = name then f else { f with name := name, aliasName := some f.wireName }

end Field

/-- What a declaration declares. -/
inductive Shape
  /-- A record; it may have no fields at all. -/
  | record (fields : List Field)
  | union (variants : List TypeExpr)
deriving DecidableEq

/-- A declaration. -/
structure Declaration where
  name : String
  description : Option String
  shape : Shape
deriving DecidableEq

namespace Declaration

/-- A record whose fields are renamed until their names are distinct. -/
def record (name : String) (description : Option String) (fields : List Field) : Declaration :=
  let names := Name.distinct (fields.map Field.name)
  ⟨name, description.filter (!·.isEmpty), .record (List.zipWith Field.rename fields names)⟩

/-- A name for a choice of types. -/
def union (name : String) (variants : List TypeExpr) : Declaration :=
  ⟨name, none, .union variants⟩

/-- The fields of a record; a union has none. -/
def fields (d : Declaration) : List Field :=
  match d.shape with
  | .record fields => fields
  | .union _ => []

end Declaration

end AgentCompiler
