import AgentCompiler.Assembly.Conversation
import AgentCompiler.Assembly.Delegate
import AgentCompiler.Assembly.Entrypoint
import AgentCompiler.Assembly.Header
import AgentCompiler.Assembly.Interpreter
import AgentCompiler.Assembly.ModelHandle
import AgentCompiler.Assembly.ModulePlan
import AgentCompiler.Assembly.Retrieval
import AgentCompiler.Code.Module
import AgentCompiler.Gateway.Client
import AgentCompiler.Memory.Coordinator
import AgentCompiler.Tool.Source
import AgentCompiler.Typing.Render

/-!
# The code of a module

Every section of a module is a list of blocks. The blocks are made from the plan, and then joined.
-/

namespace AgentCompiler.Assembly

/-- The client of a graph for tools behind a gateway. -/
def graphClient : String :=
  Text.ofLines [
    r"mcp_client = MultiServerMCPClient({",
    r#"    "agent": {"#,
    r#"        "transport": "streamable_http","#,
    r#"        "url": mcp_url,"#,
    r#"        "headers": headers,"#,
    r"    }",
    r"})",
    "mcp_tools = asyncio.run(mcp_client.get_tools())"]

/-- The client of a loop for tools behind a gateway. -/
def loopClient : String :=
  Text.ofLines [
    "streamable_http_mcp_client = MCPClient(lambda: streamablehttp_client(mcp_url, headers=headers))",
    "",
    "",
    "def init_mcp():",
    "    streamable_http_mcp_client.start()",
    "    return streamable_http_mcp_client.list_tools_sync()",
    "",
    "",
    "try:",
    "    with ThreadPoolExecutor() as executor:",
    "        mcp_tools = executor.submit(init_mcp).result(timeout=10)",
    "except (FutureTimeoutError, Exception):",
    "    mcp_tools = []"]

/-- The client for tools behind a gateway. -/
def toolClient : Profile → String
  | .langgraph => graphClient
  | .strands => loopClient

/-- What holds the running conversation. -/
def shortTermMemory : Profile → String
  | .langgraph => "checkpointer_STM = InMemorySaver()"
  | .strands => "checkpointer_STM = SlidingWindowConversationManager()"

end AgentCompiler.Assembly

namespace AgentCompiler.ModulePlan

open Assembly

/-- A block that is there on a condition. -/
def blockIf (condition : Bool) (block : String) : List String := if condition then [block] else []

/-- Whether the module runs code. -/
def runsCode (p : ModulePlan) : Bool := p.agent.hasBuiltin .codeInterpreter

/-- The statements that stand behind the imports. -/
def setupLines (profile : Profile) (p : ModulePlan) : List String :=
  ["load_dotenv()"] ++ blockIf p.isRoot "app = BedrockAgentCoreApp()" ++
    blockIf p.primitives.observability (observationSetup profile)

/-- The blocks of the first section. -/
def importBlocks (profile : Profile) (p : ModulePlan) : List String :=
  [header, imports profile] ++
    blockIf p.gateway.isSome (gatewayImport ++ "\n" ++ gatewayImports profile) ++
    blockIf p.memory.isEnabled p.memory.imports ++
    blockIf p.makesCoordinator Memory.rootCoordinatorImport ++
    blockIf p.runsCode (interpreterImport p.primitives.codeInterpreter) ++
    blockIf (!p.links.isEmpty) (Text.ofLines (p.links.map (·.importLine))) ++
    blockIf p.primitives.observability (observationImport profile) ++
    [Text.ofLines (p.setupLines profile)]

/-- The models. -/
def modelBlocks (profile : Profile) (p : ModulePlan) : List String :=
  p.prompts.map fun q =>
    modelCode profile q.kind p.model p.agent.region q.inference p.agent.guardrail

/-- The tools that call collaborators, and the table of a router. -/
def collaborationBlocks (profile : Profile) (p : ModulePlan) : List String :=
  p.links.map (delegateCode profile) ++ blockIf p.isRouter (routeTable p.links)

/-- The client of the gateway. -/
def gatewayBlocks (profile : Profile) (p : ModulePlan) : List String :=
  match p.gateway with
  | some g => [Gateway.clientSetup g.region g.url g.variableStart, toolClient profile]
  | none => []

/-- The types and tools of the action groups. -/
def toolBlocks (profile : Profile) (p : ModulePlan) : List String :=
  [Declaration.renderAll p.declarations] ++
    blockIf (p.tools.any (·.isBacked)) (Tool.helpers p.agent) ++
    p.tools.map (fun t => t.render "@tool") ++
    blockIf (p.agent.hasBuiltin .userInput) userInputTool ++
    blockIf p.runsCode
      (interpreterCode profile p.primitives.codeInterpreter p.model p.agent.region) ++
    p.gatewayBlocks profile ++
    ["action_group_tools = [" ++ String.intercalate ", " (p.tools.map (·.name)) ++ "]"]

/-- What the module remembers with. -/
def memoryBlocks (profile : Profile) (p : ModulePlan) : List String :=
  [shortTermMemory profile, p.memory.render profile.platform] ++
    blockIf p.bindsCoordinator (Memory.coordinatorBinding p.memory.needsCoordinator
      ((p.links.filter (·.bindsCoordinator)).map (·.bindAlias))) ++
    blockIf p.makesCoordinator Memory.rootCoordinator

/-- The tools that search knowledge bases. -/
def knowledgeBlocks (profile : Profile) (p : ModulePlan) : List String :=
  p.agent.knowledgeBases.map fun k => retrievalCode profile k p.agent.region

/-- The statements that list the tools. -/
def toolListLines (profile : Profile) (p : ModulePlan) : List String :=
  ["tools = [" ++ String.intercalate ", " (p.otherTools profile) ++ "]", "tools_used = set()",
    "tools += action_group_tools"] ++ blockIf p.gateway.isSome "tools += mcp_tools"

/-- The conversation of the module. -/
def conversation (p : ModulePlan) : Conversation where
  memory := p.memory
  isRouter := p.isRouter
  acceptsRelay := !p.isRoot
  preProcessing := p.hasPrompt .preProcessing
  postProcessing := p.hasPrompt .postProcessing

/-- The agent and its entry point. -/
def agentBlocks (profile : Profile) (p : ModulePlan) : List String :=
  [Text.ofLines (p.toolListLines profile), p.conversation.render profile,
    entrypointCode profile p.memory p.isRoot]

/-- The sections of a module. -/
def sections (profile : Profile) (p : ModulePlan) : Code.Sections where
  imports := String.intercalate "\n\n" (p.importBlocks profile)
  models := String.intercalate "\n\n" (p.modelBlocks profile)
  prompts := Prompt.renderAll p.prompts
  collaboration := String.intercalate "\n\n\n" (p.collaborationBlocks profile)
  tools := String.intercalate "\n\n\n" (p.toolBlocks profile)
  memory := String.intercalate "\n\n" (p.memoryBlocks profile)
  knowledgeBases := String.intercalate "\n\n" (p.knowledgeBlocks profile)
  agentSetup := String.intercalate "\n\n\n" (p.agentBlocks profile)
  usage := usageCode p.agent.idleTimeoutSeconds p.endSessions p.isRoot

/-- The code of a module. -/
def render (profile : Profile) (p : ModulePlan) : String := (p.sections profile).assemble

end AgentCompiler.ModulePlan
