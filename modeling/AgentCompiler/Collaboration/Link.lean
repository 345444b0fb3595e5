import AgentCompiler.Agent.Definition
import AgentCompiler.Code.Literal
import AgentCompiler.Name.Identifier

/-!
# Collaborators as their caller sees them

A collaborator is compiled to a module of its own. Its caller imports the entry points of that module
under names of its own, and offers the collaborator to the model as a tool.
-/

namespace AgentCompiler

/-- A compiled collaborator. -/
structure Link where
  delegation : Delegation
  agentName : String
  /-- The module that the collaborator was compiled to. -/
  moduleName : String
  /-- Whether that module can be bound to a session coordinator. -/
  bindsCoordinator : Bool
deriving DecidableEq

namespace Link

/-- The name that a router answers with. -/
def name (l : Link) : String := Name.snake l.delegation.name

/-- The tool that calls the collaborator. -/
def toolName (l : Link) : String := "invoke_" ++ l.name

/-- What the caller calls the collaborator's `invoke_agent`. -/
def invokeAlias (l : Link) : String := l.toolName ++ "_collaborator"

/-- What the caller calls the collaborator's `bind_session_coordinator`. -/
def bindAlias (l : Link) : String := "bind_" ++ l.name ++ "_session_coordinator"

/-- The import of the collaborator's module. -/
def importLine (l : Link) : String :=
  let entry := "from " ++ l.moduleName ++ " import invoke_agent as " ++ l.invokeAlias
  if l.bindsCoordinator then entry ++ ", bind_session_coordinator as " ++ l.bindAlias else entry

/-- What a model is told about the collaborator. -/
def catalogEntry (l : Link) : Json :=
  .obj [("agentName", .str l.agentName), ("collaboratorName (for invocation)", .str l.toolName),
    ("collaboratorInstruction", .str l.delegation.instruction)]

/-- The description of the tool that calls the collaborator. -/
def toolDescription (l : Link) : String :=
  "Invoke the collaborator agent/specialist with the following description: " ++
    Code.literal l.catalogEntry

end Link

end AgentCompiler
