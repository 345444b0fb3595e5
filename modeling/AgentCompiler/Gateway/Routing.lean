import AgentCompiler.Name.Namespace
import AgentCompiler.Tool.Basic

/-!
# Routing behind a gateway

One function stands behind a gateway for all the groups of an agent. It finds the remote function of a
call by the key that the call comes with.
-/

namespace AgentCompiler.Gateway

/-- The operation of a routed call. -/
inductive RoutedOperation
  | request (path method : String)
  | function (name : String)
deriving DecidableEq

/-- Where the calls with one key go. -/
structure Route where
  key : String
  group : String
  operation : RoutedOperation
  functionRef : String
  region : String
deriving DecidableEq

/-- The operation of a tool, as it is routed. -/
def RoutedOperation.ofTool : ToolOperation → RoutedOperation
  | .request path method _ _ => request path method
  | .function name _ => function name

/-- The routes of a group: one for each tool when there is a remote function. -/
def groupRoutes (g : ToolGroup) : List Route :=
  match g.functionRef with
  | none => []
  | some reference => g.tools.map fun t =>
    ⟨Name.dispatchKey g.space t.name, g.name, .ofTool t.operation, reference,
      functionRegion reference⟩

/-- The routes of all groups, in order. -/
def routes (groups : List ToolGroup) : List Route := groups.flatMap groupRoutes

/-- A route as the dispatch function reads it. -/
def Route.toJson (r : Route) : Json :=
  let target := [("lambdaArn", Json.str r.functionRef), ("lambdaRegion", .str r.region)]
  match r.operation with
  | .request path method =>
    .obj ([("actionGroup", .str r.group), ("apiPath", .str path), ("httpMethod", .str method),
      ("type", .str "openapi")] ++ target)
  | .function name =>
    .obj ([("actionGroup", .str r.group), ("function", .str name), ("type", .str "structured")] ++
      target)

/-- The routes as the dispatch function reads them. -/
def routingTable (rs : List Route) : Json :=
  .obj (Table.ofEntries (rs.map fun r => (r.key, r.toJson)))

end AgentCompiler.Gateway
