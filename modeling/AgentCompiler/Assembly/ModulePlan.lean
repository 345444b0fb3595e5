import AgentCompiler.Agent.Definition
import AgentCompiler.Assembly.Retrieval
import AgentCompiler.Collaboration.Link
import AgentCompiler.Memory.Binding
import AgentCompiler.Model.Catalog
import AgentCompiler.Prompt.Compile
import AgentCompiler.Tool.Basic
import AgentCompiler.Typing.Declaration

/-!
# Plans of modules

All that is known about an agent's module before any of its code is written.
-/

namespace AgentCompiler

/-- How a module reaches the gateway in front of its tools. -/
structure GatewayBinding where
  url : String
  region : String
  /-- What the environment variables with its credentials start with. -/
  variableStart : String
deriving DecidableEq

/-- The plan of a module. -/
structure ModulePlan where
  definition : Definition
  name : String
  model : Model.Resolved
  /-- Whether the module is the one that a user talks to. -/
  isRoot : Bool
  declarations : List Declaration
  /-- The groups whose tools stand in the module. -/
  groups : List ToolGroup
  gateway : Option GatewayBinding
  prompts : List Prompt.Compiled
  memory : MemoryBinding
  links : List Link
  primitives : Primitives

namespace ModulePlan

/-- The agent of the module. -/
def agent (p : ModulePlan) : Agent := p.definition.agent

/-- The file of the module. -/
def fileName (p : ModulePlan) : String := p.name ++ ".py"

/-- Whether there is a memory manager in the module or below it. -/
def bindsCoordinator (p : ModulePlan) : Bool :=
  p.memory.needsCoordinator || p.links.any (·.bindsCoordinator)

/-- Whether the module makes the session coordinator. -/
def makesCoordinator (p : ModulePlan) : Bool := p.isRoot && p.bindsCoordinator

/-- Whether the module hands questions over as a whole. -/
def isRouter (p : ModulePlan) : Bool := p.definition.isRouter && !p.links.isEmpty

/-- Whether the module has a prompt of a kind. -/
def hasPrompt (p : ModulePlan) (kind : PromptKind) : Bool := p.prompts.any fun q => q.kind == kind

/-- The tools that stand in the module. -/
def tools (p : ModulePlan) : List Tool := p.groups.flatMap (·.tools)

/-- The tools that a model gets besides those of action groups. -/
def otherTools (profile : Profile) (p : ModulePlan) : List String :=
  Assembly.builtinTools profile p.agent ++ p.links.map (·.toolName)

/-- What is done when the command line ends. -/
def endSessions (p : ModulePlan) : Option String :=
  if p.makesCoordinator then some "session_coordinator.end_all_sessions()"
  else if !p.isRoot && p.memory.needsCoordinator then some "memory_manager.end_session()"
  else none

end ModulePlan

end AgentCompiler
