import AgentCompiler.Agent.ActionGroup
import AgentCompiler.Api.Operation
import AgentCompiler.Schema.Inlining

/-!
# Advertised inputs

The schema of what a tool takes, as a gateway advertises it. A request has an object of parameters, and
a body that also asks for its content type.
-/

namespace AgentCompiler.Tool

open Schema

/-- An object schema. -/
def objectSchema (properties : Members) (required : List String) : Json :=
  .obj [("type", .str "object"), ("properties", .obj properties),
    ("required", .arr (required.map .str))]

/-- The schema of a parameter of a request. -/
def parameterSchema (components : Members) (p : Api.Parameter) : Json :=
  match p.schema, p.content.head? with
  | some schema, _ =>
    match inline components schema with
    | .obj ms =>
      .obj (if p.description.isEmpty then ms else Table.insert "description" (.str p.description) ms)
    | other => other
  | none, some media => withContentType (inline components media.schema) media.mediaType
  | none, none => Api.tagSchema "string"

/-- The names of the parameters that are required. -/
def requiredParameters (ps : List Api.Parameter) : List String :=
  (ps.filter (·.required)).map (·.name)

/-- The input of a request. -/
def requestSchema (components : Members) (o : Api.Operation) : Json :=
  let parameters :=
    if o.parameters.isEmpty then []
    else
      [("parameters", objectSchema
        (Table.ofEntries (o.parameters.map fun p => (p.name, parameterSchema components p)))
        (requiredParameters o.parameters))]
  let body := (o.requestBody.head?.map fun media =>
    ("requestBody", withContentType (inline components media.schema) media.mediaType)).toList
  objectSchema (parameters ++ body)
    (parameters.map Prod.fst ++ if o.bodyRequired then body.map Prod.fst else [])

/-- The input of a function. -/
def functionSchema (f : Function) : Json :=
  objectSchema
    (Table.ofEntries (f.parameters.map fun p =>
      (p.name, .obj [("type", .str p.typeTag), ("description", .str p.description)])))
    (requiredParameters f.parameters)

end AgentCompiler.Tool
