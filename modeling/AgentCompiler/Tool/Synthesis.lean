import AgentCompiler.Name.Namespace
import AgentCompiler.Schema.Mapping
import AgentCompiler.Tool.Advertised
import AgentCompiler.Tool.Basic

/-!
# Tools of action groups

Every operation of a group becomes one tool. The names of all tools of an agent are made distinct
together, and are cut to what their namespace leaves them behind a gateway. The types of a tool are
registered only when the tool stands in the module.
-/

namespace AgentCompiler.Tool

open Schema

/-- What a tool is made from. -/
inductive Origin
  | request (document : Json) (operation : Api.Operation)
  | function (function : Function)

/-- The name of a tool before it is made distinct. -/
def Origin.rawName (group : String) : Origin → String
  | request _ o => Name.snake group ++ "_" ++ Name.snake o.path ++ "_" ++ o.method
  | function f => Name.snake group ++ "_" ++ Name.snake f.name

/-- The operations of a group, in order. -/
def origins (g : ActionGroup) : List Origin :=
  match g.schema with
  | some (.interface document) => (Api.operations document).map (.request document)
  | some (.functions fs) => fs.map .function
  | none => []

/-- The description of a tool: its own one, and the group it belongs to. -/
def describe (description : Option String) (g : ActionGroup) : String :=
  description.getD "No Description Provided." ++
    "\nThis tool is part of the group of tools called " ++ g.name ++
    (if g.description.isEmpty then "." else " (description: " ++ g.description ++ ").")

/-- What a tool of a request takes: its parameters, its body, or both in one record. A body that has no
type leaves the whole input untyped. -/
def requestInput (document : Json) (o : Api.Operation) (name : String) : Mapping ToolInput := do
  let components := Schema.components document
  let parameters ← mapParameters components o.parameters (name ++ "_Params")
  let body ← mapContent components o.requestBody name
  if !o.requestBody.isEmpty && body.isNone then return .untyped
  let parametersRequired := o.parameters.any (·.required)
  match ← compose name (parameters.map (·, parametersRequired)) (body.map (·, o.bodyRequired)) with
  | some type => return .typed type
  | none => return .none

/-- What a tool of a function takes. -/
def functionInput (f : Function) (name : String) : Mapping ToolInput := do
  match ← mapParameters [] f.parameters (name ++ "_Input") with
  | some type => return .typed type
  | none => return .none

/-- What a tool takes; a tool that a gateway serves takes nothing in the module. -/
def inputOf (proxied : Bool) (origin : Origin) (name : String) : Mapping ToolInput :=
  if proxied then pure .none
  else
    match origin with
    | .request document o => requestInput document o name
    | .function f => functionInput f name

/-- How the tools of a group do their work. -/
def bodyOf (g : ActionGroup) : ToolBody :=
  match g.functionRef? with
  | some reference => .invoke reference (functionRegion reference)
  | none => .ask

/-- The tool of an operation, under its final name. -/
def build (g : ActionGroup) (proxied : Bool) (name : String) (origin : Origin) : Mapping Tool := do
  let input ← inputOf proxied origin name
  let body := bodyOf g
  match origin with
  | .request document o =>
    pure {
      name, input, body
      description := describe o.description g
      group := g.name
      operation := .request o.path (.ofList (o.method.toList.map Char.toUpper))
        (!o.parameters.isEmpty) (o.requestBody.head?.map (·.mediaType))
      inputSchema := requestSchema (Schema.components document) o }
  | .function f =>
    pure {
      name, input, body
      description := describe (some f.description |>.filter (!·.isEmpty)) g
      group := g.name
      operation := .function f.name (f.parameters.map fun p => (p.name, p.typeTag))
      inputSchema := functionSchema f }

/-- A group with its namespace and the distinct names of its tools. -/
structure Planned where
  group : ActionGroup
  space : String
  tools : List (String × Origin)

/-- Hands the names out to the groups, in order. -/
def handOut : List (ActionGroup × String) → List String → List Planned
  | [], _ => []
  | (g, space) :: gs, names =>
    let os := origins g
    ⟨g, space, names.zip os⟩ :: handOut gs (names.drop os.length)

/-- The groups with their namespaces and the names of their tools. -/
def plan (groups : List ActionGroup) : List Planned :=
  let spaces := Name.namespaces (groups.map (·.name))
  let names := groups.flatMap fun g => (origins g).map (Origin.rawName g.name)
  handOut (groups.zip spaces) (Name.distinct names)

/-- Whether a gateway serves the group. -/
def Planned.isProxied (p : Planned) (gateway : Bool) : Bool :=
  gateway && p.group.functionRef?.isSome

/-- The most characters of the names of a group's tools. -/
def Planned.budget (p : Planned) (gateway : Bool) : Nat :=
  if p.isProxied gateway then Name.namespaceBudget p.space else Name.toolBudget

/-- The tools of a group. -/
def Planned.build (p : Planned) (gateway : Bool) : Mapping ToolGroup := do
  let tools ← p.tools.mapM fun (name, origin) =>
    Tool.build p.group (p.isProxied gateway) (Name.prune name (p.budget gateway)) origin
  pure ⟨p.group.name, p.space, p.group.functionRef?, tools⟩

/-- The tools of the groups of an agent. -/
def synthesize (groups : List ActionGroup) (gateway : Bool) : Mapping (List ToolGroup) :=
  (plan groups).mapM (·.build gateway)

end AgentCompiler.Tool
