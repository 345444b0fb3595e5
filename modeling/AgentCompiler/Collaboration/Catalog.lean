import AgentCompiler.Collaboration.Link
import AgentCompiler.Prompt.Compile

/-!
# What templates say about other agents

The templates of an agent may list its collaborators, its tools and its knowledge bases.
-/

namespace AgentCompiler

/-- The entries of collaborators, with commas between them. -/
def catalog (links : List Link) : String :=
  String.intercalate "," (links.map fun l => Code.literal l.catalogEntry)

/-- The values that the templates of an agent take from its definition. `toolNames` are the tools that
the agent has besides its collaborators. -/
def Prompt.Values.ofAgent (a : Agent) (links : List Link) (toolNames : List String) : Values where
  instruction := a.instruction
  agentCollaborators := catalog links
  reachableAgents := catalog links
  toolsForRouting := Code.literal (.arr (toolNames.map .str))
  knowledgeBasesForRouting := Code.literal (.arr (a.knowledgeBases.map fun k =>
    .obj [("name", .str k.name), ("description", .str k.description)]))

end AgentCompiler
