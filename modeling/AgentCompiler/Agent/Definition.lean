import AgentCompiler.Agent.ActionGroup
import AgentCompiler.Agent.Prompt

/-!
# Agent definitions

A definition is an agent together with the definitions of its collaborators, and so a tree. Identities
are only names in it: the same identity may stand at several places.
-/

namespace AgentCompiler

/-- A filter on what goes into a model and comes out of it. -/
structure Guardrail where
  id : String
  version : String := "DRAFT"
deriving DecidableEq

/-- A collection of documents that an agent can search. -/
structure KnowledgeBase where
  name : String
  description : String := ""
  id : String
  region : Option String := none
deriving DecidableEq

/-- How an agent works with its collaborators. -/
inductive Collaboration
  | disabled
  | supervisor
  /-- A supervisor that hands a question over as a whole when it can. -/
  | router
deriving DecidableEq

/-- What an agent remembers between sessions. -/
structure MemorySettings where
  enabledTypes : List String := []
  storageDays : Nat := 30
  maxRecentSessions : Nat := 20
deriving DecidableEq

/-- The services of the platform that a run may use. -/
structure Primitives where
  gateway : Bool := false
  memory : Bool := false
  codeInterpreter : Bool := false
  observability : Bool := false
deriving DecidableEq

/-- An agent without its collaborators. -/
structure Agent where
  name : String
  id : String := ""
  aliasName : String := ""
  version : String := "DRAFT"
  modelId : String
  /-- The family of the model; found from the model's id when absent. -/
  provider : Option String := none
  region : String := "us-west-2"
  description : String := ""
  instruction : String := ""
  idleTimeoutSeconds : Nat := 600
  guardrail : Option Guardrail := none
  actionGroups : List ActionGroup := []
  knowledgeBases : List KnowledgeBase := []
  collaboration : Collaboration := .disabled
  prompts : List PromptSettings := []
  memory : Option MemorySettings := none
  primitives : Primitives := {}

namespace Agent

/-- What tells agents apart: the id, or the name where there is none. -/
def identity (a : Agent) : String := if a.id.isEmpty then a.name else a.id

/-- The enabled groups that are not built in. -/
def customGroups (a : Agent) : List ActionGroup :=
  a.actionGroups.filter fun g => g.enabled && g.builtin.isNone

/-- Whether a built-in group is enabled. -/
def hasBuiltin (a : Agent) (b : Builtin) : Bool :=
  a.actionGroups.any fun g => g.enabled && g.builtin == some b

/-- Whether any group is enabled. -/
def hasActionGroups (a : Agent) : Bool := a.actionGroups.any (·.enabled)

/-- Whether the agent remembers anything. -/
def memoryEnabled (a : Agent) : Bool :=
  match a.memory with
  | some m => !m.enabledTypes.isEmpty
  | none => false

/-- The enabled settings of a kind of prompt; the first ones count. -/
def prompt? (a : Agent) (kind : PromptKind) : Option PromptSettings :=
  a.prompts.find? fun p => p.kind == kind && p.enabled

end Agent

/-- What an agent says about one of its collaborators. -/
structure Delegation where
  /-- The name under which the collaborator is called. -/
  name : String
  instruction : String := ""
  /-- Whether the conversation so far is handed on. -/
  relayHistory : Bool := false
deriving DecidableEq

/-- An agent with its collaborators. -/
inductive Definition
  | node (agent : Agent) (collaborators : List (Delegation × Definition))

namespace Definition

/-- The agent itself. -/
def agent : Definition → Agent
  | node a _ => a

/-- The collaborators, whether they are enabled or not. -/
def collaborators : Definition → List (Delegation × Definition)
  | node _ cs => cs

/-- Whether the agent calls its collaborators. -/
def collaborates (d : Definition) : Bool :=
  d.agent.collaboration != .disabled && !d.collaborators.isEmpty

/-- Whether the agent may hand a question over as a whole. -/
def isRouter (d : Definition) : Bool :=
  d.collaborates && d.agent.collaboration == .router

end Definition

end AgentCompiler
