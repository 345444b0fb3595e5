import AgentCompiler.Collaboration.Catalog
import AgentCompiler.Compilation.Fault
import AgentCompiler.Compilation.Output
import AgentCompiler.Memory.Manager
import AgentCompiler.Profile.Requirements
import AgentCompiler.Provisioning.Request
import AgentCompiler.Tool.Synthesis

/-!
# Runs

A run compiles an agent and, depth first, the collaborators below it, so that the module of a
collaborator comes before the module that imports it. What it emits is kept as data until the end. What
it asked for stays known when it ends early.
-/

namespace AgentCompiler.Compilation

open Provisioning (Request Handle Provisioner)

/-- What a run is given besides the definition. -/
structure Options where
  profile : Profile := .standard
  fixtures : Prompt.Fixtures := .builtIn
  catalog : Model.Catalog := .builtIn
  /-- Whether tools are served through gateways; the definition of the root tells when absent. -/
  gateway : Option Bool := none
  /-- What answers the requests. Without one the answers are planned, and the plan is written. -/
  provisioner : Option Provisioner := none

/-- How far a run has got. -/
structure State where
  /-- The names that were wanted for modules. -/
  wanted : List String := []
  requests : List Request := []
  emitted : List Emission := []
  environment : List (String × String) := []

/-- A run. -/
abbrev Run := ExceptT RunFault (StateM State)

/-- What is the same for all agents of a run. -/
structure Scope where
  options : Options
  /-- The services of the platform that the run may use. -/
  primitives : Primitives

namespace Scope

/-- The scope of a run that starts at an agent. -/
def ofRoot (o : Options) (root : Agent) : Scope where
  options := o
  primitives := { root.primitives with gateway := o.gateway.getD root.primitives.gateway }

/-- The name of the library in the names of modules. -/
def platform (s : Scope) : String := s.options.profile.platform

end Scope

/-- The name of the `n`th module for which a name is wanted. -/
def numbered (base : String) (n : Nat) : String :=
  if n ≤ 1 then base else Name.numbered base n

/-- The name of the next module for which a name is wanted. -/
def moduleName (base : String) : Run String := do
  let s ← getThe State
  set { s with wanted := s.wanted ++ [base] }
  return numbered base (s.wanted.count base + 1)

/-- Asks for something. `what` names it in case of a refusal. Refused requests are not kept. -/
def ask (s : Scope) (what : String) (r : Request) : Run r.Answer := do
  let state ← getThe State
  match (s.options.provisioner.getD Provisioning.planner) state.requests r with
  | .error reason => throw (.refused what reason)
  | .ok answer =>
    set { state with requests := state.requests ++ [r] }
    return answer

/-- Emits something. -/
def emit (e : Emission) : Run Unit :=
  modifyThe State fun s => { s with emitted := s.emitted ++ [e] }

/-- Adds variables to the environment. -/
def addVariables (bindings : List (String × String)) : Run Unit :=
  modifyThe State fun s => { s with environment := s.environment ++ bindings }

/-- The tools of an agent, and the types they take. -/
def synthesize (s : Scope) (a : Agent) : Run (List ToolGroup × List Declaration) :=
  match (Tool.synthesize a.customGroups s.primitives.gateway).run {} with
  | some (groups, registry) => return (groups, registry.declarations)
  | none => throw (.endlessSchema a.name)

/-- Asks for the gateway of an agent, the function behind it and its targets. -/
def serve (s : Scope) (a : Agent) (plan : Gateway.Plan) : Run Handle := do
  let handle ← ask s ("gateway for '" ++ a.name ++ "'") (.gateway a.name a.region)
  let functionRef ← ask s ("dispatch function " ++ plan.dispatch.name)
    (.dispatchEndpoint plan.dispatch)
  plan.targets.forM fun target =>
    discard (ask s ("gateway target " ++ target.name) (.gatewayTarget handle target functionRef))
  return handle

/-- Puts the tools of an agent behind a gateway, when there are any to be served. -/
def bindGateway (s : Scope) (a : Agent) (name : String) (isRoot : Bool) (groups : List ToolGroup) :
    Run (Option GatewayBinding) := do
  if !s.primitives.gateway then return none
  match Gateway.plan? a groups with
  | none => return none
  | some plan =>
    let handle ← serve s a plan
    let start := if isRoot then "" else name ++ "_"
    addVariables (handle.credentials.map fun (key, value) =>
      (Gateway.credentialVariable start key, value))
    emit (.dispatch plan.dispatch)
    return some ⟨handle.url, handle.region, start⟩

/-- Where an agent keeps what it remembers. -/
def bindMemory (s : Scope) (a : Agent) (name : String) : Run MemoryBinding := do
  if !a.memoryEnabled then return .disabled
  else if s.primitives.memory then
    let id ← ask s ("memory for '" ++ a.name ++ "'") (.managedMemory a.name .sessionSummaries a.region)
    return .managed id a.region
  else return .ofAgent a name

/-- The prompts of an agent. -/
def prompts (s : Scope) (d : Definition) (links : List Link) (groups : List ToolGroup) :
    Run (List Prompt.Compiled) :=
  let tools := groups.flatMap (fun g => g.tools.map (·.name)) ++
    Assembly.builtinTools s.options.profile d.agent
  let setting : Prompt.Setting :=
    ⟨s.options.fixtures, .ofAgent d.agent, .ofAgent d.agent links tools⟩
  match setting.prompts d with
  | .ok ps => return ps
  | .error fault => throw (.badTemplate fault)

mutual
/-- Compiles an agent under a name, and says whether its module binds a session coordinator.
`ancestors` are the identities from the root to the agent's caller. -/
def compile (s : Scope) (ancestors : List String) (name : String) : Definition → Run Bool
  | .node a collaborators => do
    let d := Definition.node a collaborators
    let chain := ancestors ++ [a.identity]
    if ancestors.contains a.identity then throw (.cyclic chain)
    let (groups, declarations) ← synthesize s a
    let gateway ← bindGateway s a name ancestors.isEmpty groups
    let links ← if d.collaborates then compileAll s chain collaborators else pure []
    let memory ← bindMemory s a name
    let prompts ← prompts s d links groups
    let plan : ModulePlan := {
      definition := d, name, isRoot := ancestors.isEmpty, declarations, gateway, prompts, memory, links
      model := s.options.catalog.resolve a.modelId a.provider
      groups := groups.filter fun g => !g.isProxied s.primitives.gateway
      primitives := s.primitives }
    emit (.agentModule plan)
    return plan.bindsCoordinator
/-- Compiles collaborators in order. -/
def compileAll (s : Scope) (chain : List String) : List (Delegation × Definition) → Run (List Link)
  | [] => return []
  | (delegation, d) :: rest => do
    let name ← moduleName (s.platform ++ "_collaborator_" ++ Name.snake delegation.name)
    let binds ← compile s chain name d
    let links ← compileAll s chain rest
    return ⟨delegation, d.agent.name, name, binds⟩ :: links
end

/-- Compiles a root. -/
def compileRoot (o : Options) (d : Definition) : Run Unit := do
  let s := Scope.ofRoot o d.agent
  let name ← moduleName (s.platform ++ "_" ++ Name.snake d.agent.name)
  let _ ← compile s [] name d

/-- The files that a run writes besides those of the agents. -/
def extraFiles (o : Options) (s : State) : List OutputFile :=
  let hasManager := (s.emitted.filterMap (·.plan?)).any fun p => p.memory.needsCoordinator
  [⟨environmentFile, environmentText s.environment⟩,
      ⟨Profile.requirementsFile, o.profile.requirements⟩] ++
    (if hasManager then [⟨Memory.managerFile, Memory.managerSource⟩] else []) ++
    (if o.provisioner.isNone then [⟨Provisioning.planFile, Provisioning.plan s.requests⟩] else [])

/-- What a run that went through gives. -/
def State.output (o : Options) (s : State) : Output where
  files := s.emitted.map (Emission.file o.profile) ++ extraFiles o s
  environment := s.environment

/-- How a run ended, and what it asked for until then. -/
structure Outcome where
  result : Except RunFault Output
  requests : List Request

/-- Compiles a definition. -/
def run (o : Options) (d : Definition) : Outcome :=
  let (ended, s) := (compileRoot o d).run.run {}
  ⟨ended.map fun _ => s.output o, s.requests⟩

end AgentCompiler.Compilation
