import AgentCompiler.Api.Parameter
import AgentCompiler.Json.Pointer

/-!
# Operations of an interface document

A document describes operations as pairs of a path and a method. An operation has the parameters of its
own list and those of its path that it does not declare itself, under the same name and location.
-/

namespace AgentCompiler.Api

/-- An operation of an interface document. -/
structure Operation where
  path : String
  method : String
  description : Option String := none
  parameters : List Parameter := []
  requestBody : List MediaSchema := []
  bodyRequired : Bool := false

/-- The methods that an operation can have. -/
def methods : List String := ["get", "put", "post", "delete", "options", "head", "patch", "trace"]

/-- A text that is not empty. -/
def textOf (node : Members) (key : String) : Option String :=
  ((node.lookup key).bind Json.string?).filter (!·.isEmpty)

/-- The value that a reference within the document leads to; any other value stands for itself, and so
does a reference that leads nowhere. -/
def follow (document node : Json) : Json :=
  match node.getString? "$ref" with
  | none => node
  | some reference =>
    match reference.toList with
    | '#' :: pointer => (document.pointer? (.ofList pointer)).getD node
    | _ => node

/-- The schemas of a content object; an entry without a schema has the empty one. -/
def mediaSchemas (content : Option Json) : List MediaSchema :=
  ((content.bind Json.members?).getD []).map fun (mediaType, entry) =>
    ⟨mediaType, (entry.get? "schema").getD (.obj [])⟩

/-- The parameter that a node describes; none without a name. A parameter of the path is always
required. One that has neither a schema nor content has the schema of its type tag. -/
def parameter? (document node : Json) : Option Parameter := do
  let p ← (follow document node).members?
  let name ← textOf p "name"
  let location := (((p.lookup "in").bind Json.string?).map Location.ofName).getD .query
  let declared := ((p.lookup "required").bind Json.bool?).getD false
  let schema := match p.lookup "schema", p.lookup "content" with
    | some schema, _ => some schema
    | none, none => some (tagSchema (((p.lookup "type").bind Json.string?).getD "string"))
    | none, some _ => none
  some {
    name
    description := (textOf p "description").getD ""
    required := declared || location == .path
    location
    schema
    content := mediaSchemas (p.lookup "content") }

/-- The usable parameters in a node's list. -/
def parametersOf (document : Json) (node : Members) : List Parameter :=
  (((node.lookup "parameters").bind Json.items?).getD []).filterMap (parameter? document)

/-- Whether a parameter is declared in a list: name and location decide. -/
def declares (ps : List Parameter) (p : Parameter) : Bool :=
  ps.any fun q => q.name == p.name && q.location == p.location

/-- Adds the parameters that are not declared yet, one after the other. -/
def inherit (own shared : List Parameter) : List Parameter :=
  shared.foldl (fun ps p => if declares ps p then ps else ps ++ [p]) own

/-- The schemas of an operation's body, and whether there has to be one. -/
def requestBodyOf (document : Json) (op : Members) : List MediaSchema × Bool :=
  match op.lookup "requestBody" with
  | none => ([], false)
  | some body =>
    let body := follow document body
    (mediaSchemas (body.get? "content"), ((body.get? "required").bind Json.bool?).getD false)

/-- The operation that a method of a path describes; none unless the method is known and described by
an object. -/
def operation? (document : Json) (path : String) (item : Members) (method : String) (node : Json) :
    Option Operation := do
  if !methods.contains method then none
  let op ← node.members?
  let body := requestBodyOf document op
  some {
    path
    method
    description := textOf op "description" <|> textOf op "summary"
    parameters := inherit (parametersOf document op) (parametersOf document item)
    requestBody := body.1
    bodyRequired := body.2 }

/-- The operations of one path. -/
def pathOperations (document : Json) (path : String) (item : Json) : List Operation :=
  match item with
  | .obj members => members.filterMap fun (method, op) => operation? document path members method op
  | _ => []

/-- The operations of a document, in its order. -/
def operations (document : Json) : List Operation :=
  ((document.getMembers? "paths").getD []).flatMap fun (path, item) =>
    pathOperations document path item

end AgentCompiler.Api
