import AgentCompiler.Gateway.Client
import AgentCompiler.Gateway.Dispatch
import AgentCompiler.Json.Writer

/-!
# Requests to the platform

A run never makes anything on the platform itself. It asks for what it needs and goes on with the
answer. The planned answer to a request is made from the request alone, so a run without the platform
still gives complete modules, and the list of its requests is a plan for whoever deploys them.
-/

namespace AgentCompiler.Provisioning

/-- A gateway that is there: where it is and how to sign in. -/
structure Handle where
  name : String
  url : String
  region : String
  /-- The credentials, each with the key it is listed under. -/
  credentials : List (String × String)
deriving DecidableEq

/-- How a memory resource sums up sessions. -/
structure Strategy where
  name : String
  /-- Where the summaries are put. -/
  namespaces : List String
deriving DecidableEq

/-- The strategy of every memory resource. -/
def Strategy.sessionSummaries : Strategy :=
  ⟨"SessionSummarizer", [r"/summaries/{actorId}/{sessionId}"]⟩

/-- What a run asks for. -/
inductive Request
  /-- A gateway for an agent. -/
  | gateway (agentName region : String)
  /-- The dispatch function behind a gateway. -/
  | dispatchEndpoint (function : Gateway.Dispatch)
  /-- The registration of a group with a gateway. -/
  | gatewayTarget (gateway : Handle) (target : Gateway.Target) (functionRef : String)
  /-- A memory resource. -/
  | managedMemory (name : String) (strategy : Strategy) (region : String)

namespace Request

/-- What answers a request: a gateway for a gateway, and a reference for all else. -/
abbrev Answer : Request → Type
  | gateway _ _ => Handle
  | dispatchEndpoint _ => String
  | gatewayTarget _ _ _ => String
  | managedMemory _ _ _ => String

end Request

/-- The name of the gateway of an agent. -/
def gatewayName (agentName : String) : String :=
  Text.replace (Name.snake agentName) "_" "-" ++ "-gateway"

/-- The planned gateway of an agent. -/
def plannedGateway (agentName region : String) : Handle :=
  let name := gatewayName agentName
  { name, region
    url := "https://" ++ name ++ ".gateway.bedrock-agentcore." ++ region ++ ".amazonaws.com/mcp"
    credentials := Gateway.credentialKeys.map fun key => (key, "<" ++ name ++ ":" ++ key ++ ">") }

/-- The planned reference of a dispatch function. -/
def plannedFunction (f : Gateway.Dispatch) : String :=
  "arn:aws:lambda:" ++ f.region ++ ":000000000000:function:" ++ f.name

/-- The planned reference of a target. -/
def plannedTarget (gateway : Handle) (target : Gateway.Target) : String :=
  gateway.name ++ "/" ++ target.name

/-- The planned reference of a memory resource. -/
def plannedMemory (name : String) : String := Name.snake name ++ "_memory"

namespace Request

/-- The planned answer to a request. -/
def planned : (r : Request) → r.Answer
  | gateway agentName region => plannedGateway agentName region
  | dispatchEndpoint f => plannedFunction f
  | gatewayTarget g t _ => plannedTarget g t
  | managedMemory name _ _ => plannedMemory name

end Request

/-! ## Plans as documents -/

/-- A route in a plan. -/
def routeJson (r : Gateway.Route) : Json :=
  .obj [("key", .str r.key), ("action_group", .str r.group),
    ("operation", match r.operation with
      | .request path method =>
        .obj [("type", .str "open_api"), ("path", .str path), ("method", .str method)]
      | .function name => .obj [("type", .str "function"), ("name", .str name)]),
    ("function_ref", .str r.functionRef), ("region", .str r.region)]

/-- A dispatch function in a plan, without its code. -/
def dispatchJson (f : Gateway.Dispatch) : Json :=
  .obj [("name", .str f.name), ("region", .str f.region), ("handler", .str f.handler),
    ("routing", .arr (f.routes.map routeJson))]

/-- A strategy in a plan. -/
def Strategy.toJson (s : Strategy) : Json :=
  .obj [("name", .str s.name), ("namespaces", .arr (s.namespaces.map .str))]

/-- A request in a plan, with its planned answer. -/
def Request.toJson : Request → Json
  | gateway agentName region =>
    let handle := plannedGateway agentName region
    .obj [("kind", .str "gateway"), ("name", .str handle.name), ("region", .str handle.region),
      ("url", .str handle.url)]
  | dispatchEndpoint f =>
    .obj [("kind", .str "dispatch_endpoint"), ("function", dispatchJson f),
      ("function_ref", .str (plannedFunction f))]
  | gatewayTarget g t functionRef =>
    .obj [("kind", .str "gateway_target"), ("gateway", .str g.name), ("target", t.toJson),
      ("function_ref", .str functionRef), ("target_id", .str (plannedTarget g t))]
  | managedMemory name strategy region =>
    .obj [("kind", .str "managed_memory"), ("name", .str name), ("region", .str region),
      ("strategy", strategy.toJson), ("memory_id", .str (plannedMemory name))]

/-- The file that holds the plan of a run. -/
def planFile : String := "provisioning_plan.json"

/-- The text of a plan. -/
def plan (requests : List Request) : String :=
  (Json.obj [("requests", .arr (requests.map (·.toJson)))]).canonical

/-! ## Provisioners -/

/-- What answers the requests of a run. An answer may depend on the requests before it; a refusal gives
its reason. -/
abbrev Provisioner := (before : List Request) → (r : Request) → Except String r.Answer

/-- The provisioner that gives the planned answers. -/
def planner : Provisioner := fun _ r => .ok r.planned

end AgentCompiler.Provisioning
