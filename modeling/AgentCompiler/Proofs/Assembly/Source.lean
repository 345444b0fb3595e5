import AgentCompiler.Assembly.Render

/-!
# What a module's code is made from

The code of a module shows its plan only in part: of the agent it takes a few settings, of the groups
the tools that stand in them, and of the services of the platform two. Plans that agree in these parts
have the same code.
-/

namespace AgentCompiler.ModulePlan

/-- Two plans agree in all that the code of a module is made from. -/
structure Agree (p q : ModulePlan) : Prop where
  model : q.model = p.model
  isRoot : q.isRoot = p.isRoot
  declarations : q.declarations = p.declarations
  tools : q.tools = p.tools
  gateway : q.gateway = p.gateway
  prompts : q.prompts = p.prompts
  memory : q.memory = p.memory
  links : q.links = p.links
  observability : q.primitives.observability = p.primitives.observability
  codeInterpreter : q.primitives.codeInterpreter = p.primitives.codeInterpreter
  routes : q.definition.isRouter = p.definition.isRouter
  region : q.agent.region = p.agent.region
  guardrail : q.agent.guardrail = p.agent.guardrail
  knowledgeBases : q.agent.knowledgeBases = p.agent.knowledgeBases
  idleTimeoutSeconds : q.agent.idleTimeoutSeconds = p.agent.idleTimeoutSeconds
  hasBuiltin : ∀ b, q.agent.hasBuiltin b = p.agent.hasBuiltin b
  metadata : Tool.metadata q.agent = Tool.metadata p.agent

namespace Agree

variable {p q : ModulePlan} {profile : Profile}

theorem bindsCoordinator (h : p.Agree q) : q.bindsCoordinator = p.bindsCoordinator := by
  rw [ModulePlan.bindsCoordinator, ModulePlan.bindsCoordinator, h.memory, h.links]

theorem makesCoordinator (h : p.Agree q) : q.makesCoordinator = p.makesCoordinator := by
  rw [ModulePlan.makesCoordinator, ModulePlan.makesCoordinator, h.isRoot, h.bindsCoordinator]

theorem isRouter (h : p.Agree q) : q.isRouter = p.isRouter := by
  rw [ModulePlan.isRouter, ModulePlan.isRouter, h.routes, h.links]

theorem runsCode (h : p.Agree q) : q.runsCode = p.runsCode := h.hasBuiltin _

theorem endSessions (h : p.Agree q) : q.endSessions = p.endSessions := by
  rw [ModulePlan.endSessions, ModulePlan.endSessions, h.makesCoordinator, h.isRoot, h.memory]

/-! ## Sections -/

theorem importBlocks (h : p.Agree q) : q.importBlocks profile = p.importBlocks profile := by
  simp only [ModulePlan.importBlocks, setupLines, h.gateway, h.memory, h.makesCoordinator, h.runsCode,
    h.codeInterpreter, h.links, h.observability, h.isRoot]

theorem modelBlocks (h : p.Agree q) : q.modelBlocks profile = p.modelBlocks profile := by
  simp only [ModulePlan.modelBlocks, h.prompts, h.model, h.region, h.guardrail]

theorem collaborationBlocks (h : p.Agree q) :
    q.collaborationBlocks profile = p.collaborationBlocks profile := by
  simp only [ModulePlan.collaborationBlocks, h.links, h.isRouter]

theorem toolBlocks (h : p.Agree q) : q.toolBlocks profile = p.toolBlocks profile := by
  simp only [ModulePlan.toolBlocks, gatewayBlocks, Tool.helpers, h.declarations, h.tools, h.metadata,
    h.hasBuiltin, h.runsCode, h.codeInterpreter, h.model, h.region, h.gateway]

theorem memoryBlocks (h : p.Agree q) : q.memoryBlocks profile = p.memoryBlocks profile := by
  simp only [ModulePlan.memoryBlocks, h.memory, h.bindsCoordinator, h.links, h.makesCoordinator]

theorem knowledgeBlocks (h : p.Agree q) : q.knowledgeBlocks profile = p.knowledgeBlocks profile := by
  rw [ModulePlan.knowledgeBlocks, ModulePlan.knowledgeBlocks, h.knowledgeBases, h.region]

theorem toolListLines (h : p.Agree q) : q.toolListLines profile = p.toolListLines profile := by
  simp only [ModulePlan.toolListLines, otherTools, Assembly.builtinTools, h.knowledgeBases,
    h.hasBuiltin, h.links, h.gateway]

theorem conversation (h : p.Agree q) : q.conversation = p.conversation := by
  simp only [ModulePlan.conversation, hasPrompt, h.memory, h.isRouter, h.isRoot, h.prompts]

theorem agentBlocks (h : p.Agree q) : q.agentBlocks profile = p.agentBlocks profile := by
  rw [ModulePlan.agentBlocks, ModulePlan.agentBlocks, h.toolListLines, h.conversation, h.memory,
    h.isRoot]

/-- Plans that agree have the same code. -/
theorem render (h : p.Agree q) : q.render profile = p.render profile := by
  simp only [ModulePlan.render, sections, h.importBlocks, h.modelBlocks, h.prompts,
    h.collaborationBlocks, h.toolBlocks, h.memoryBlocks, h.knowledgeBlocks, h.agentBlocks,
    h.idleTimeoutSeconds, h.endSessions, h.isRoot]

end Agree

end AgentCompiler.ModulePlan
