import AgentCompiler.Json.Basic

/-!
# Parameters of operations
-/

namespace AgentCompiler.Api

/-- Where a parameter of a request stands. -/
inductive Location
  | query
  | path
  | header
  | cookie
deriving DecidableEq

/-- The location of a name; a name that is not known stands for the query. -/
def Location.ofName (name : String) : Location :=
  match name with
  | "path" => .path
  | "header" => .header
  | "cookie" => .cookie
  | _ => .query

/-- The name of a location. -/
def Location.name : Location → String
  | .query => "query"
  | .path => "path"
  | .header => "header"
  | .cookie => "cookie"

/-- The schema that a media type carries. -/
structure MediaSchema where
  mediaType : String
  schema : Json

/-- A parameter. It has a schema, or one for each of several media types. -/
structure Parameter where
  name : String
  description : String := ""
  required : Bool := false
  location : Location := .query
  schema : Option Json := none
  content : List MediaSchema := []

/-- The schema that holds nothing but a type tag. -/
def tagSchema (tag : String) : Json := .obj [("type", .str tag)]

/-- The type tag of the parameter's schema; without one it is a text. -/
def Parameter.typeTag (p : Parameter) : String :=
  (p.schema.bind fun s => s.getString? "type").getD "string"

end AgentCompiler.Api
