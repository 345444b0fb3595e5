/-!
# Placeholders

A template may hold placeholders, a name between two dollar signs. There is a closed set of them. Some
are filled when an agent is compiled, from a table of fixed texts or from the definition, and the others
on each call of the generated code. A placeholder may depend on a feature of the agent.
-/

namespace AgentCompiler

/-- When a placeholder gets its value. -/
inductive Phase
  /-- From the table of fixed texts. -/
  | fixture
  /-- From the definition of the agent. -/
  | definition
  /-- On each call of the generated code. -/
  | runtime
deriving DecidableEq

/-- What an agent is able to do, as far as placeholders care. -/
inductive Feature
  | knowledgeBases
  | memory
  | userInput
  | actionGroups
  | codeInterpreter
deriving DecidableEq

/-- A placeholder. -/
inductive Placeholder
  | askUserMissingInformation
  | respondToUserGuideline
  | knowledgeBaseGuideline
  | knowledgeBaseAdditionalGuideline
  | respondToUserKnowledgeBaseAdditionalGuideline
  | memoryGuideline
  | memoryContent
  | memoryActionGuideline
  | promptSessionAttributes
  | codeInterpreterGuideline
  | codeInterpreterFiles
  | multiAgentCollaborationGuideline
  | multiAgentPayloadReferenceGuideline
  | actionKbGuideline
  | functions
  | tools
  | agentScratchpad
  | conversationHistory
  | instruction
  | agentCollaborators
  | reachableAgents
  | toolsForRouting
  | knowledgeBasesForRouting
  | question
  | latestResponse
  | responses
  | searchResults
  | memorySynopsis
  | pastConversationSummary
  | conversation
  | lastUserRequest
  | lastMostSpecializedAgent
deriving DecidableEq

namespace Placeholder

/-- Every placeholder, in the order in which they are filled. -/
def all : List Placeholder :=
  [.askUserMissingInformation, .respondToUserGuideline, .knowledgeBaseGuideline,
    .knowledgeBaseAdditionalGuideline, .respondToUserKnowledgeBaseAdditionalGuideline,
    .memoryGuideline, .memoryContent, .memoryActionGuideline, .promptSessionAttributes,
    .codeInterpreterGuideline, .codeInterpreterFiles, .multiAgentCollaborationGuideline,
    .multiAgentPayloadReferenceGuideline, .actionKbGuideline, .functions, .tools,
    .agentScratchpad, .conversationHistory, .instruction, .agentCollaborators, .reachableAgents,
    .toolsForRouting, .knowledgeBasesForRouting, .question, .latestResponse, .responses,
    .searchResults, .memorySynopsis, .pastConversationSummary, .conversation, .lastUserRequest,
    .lastMostSpecializedAgent]

/-- The name between the dollar signs. -/
def name : Placeholder → String
  | askUserMissingInformation => "ask_user_missing_information"
  | respondToUserGuideline => "respond_to_user_guideline"
  | knowledgeBaseGuideline => "knowledge_base_guideline"
  | knowledgeBaseAdditionalGuideline => "knowledge_base_additional_guideline"
  | respondToUserKnowledgeBaseAdditionalGuideline => "respond_to_user_knowledge_base_additional_guideline"
  | memoryGuideline => "memory_guideline"
  | memoryContent => "memory_content"
  | memoryActionGuideline => "memory_action_guideline"
  | promptSessionAttributes => "prompt_session_attributes"
  | codeInterpreterGuideline => "code_interpreter_guideline"
  | codeInterpreterFiles => "code_interpreter_files"
  | multiAgentCollaborationGuideline => "multi_agent_collaboration_guideline"
  | multiAgentPayloadReferenceGuideline => "multi_agent_payload_reference_guideline"
  | actionKbGuideline => "action_kb_guideline"
  | functions => "functions"
  | tools => "tools"
  | agentScratchpad => "agent_scratchpad"
  | conversationHistory => "conversation_history"
  | instruction => "instruction"
  | agentCollaborators => "agent_collaborators"
  | reachableAgents => "reachable_agents"
  | toolsForRouting => "tools_for_routing"
  | knowledgeBasesForRouting => "knowledge_bases_for_routing"
  | question => "question"
  | latestResponse => "latest_response"
  | responses => "responses"
  | searchResults => "search_results"
  | memorySynopsis => "memory_synopsis"
  | pastConversationSummary => "past_conversation_summary"
  | conversation => "conversation"
  | lastUserRequest => "last_user_request"
  | lastMostSpecializedAgent => "last_most_specialized_agent"

/-- When a placeholder gets its value. -/
def phase : Placeholder → Phase
  | instruction | agentCollaborators | reachableAgents | toolsForRouting
  | knowledgeBasesForRouting => .definition
  | question | latestResponse | responses | searchResults | memorySynopsis
  | pastConversationSummary | conversation | lastUserRequest | lastMostSpecializedAgent => .runtime
  | _ => .fixture

/-- The feature that a placeholder depends on. -/
def feature : Placeholder → Option Feature
  | askUserMissingInformation | respondToUserGuideline => some .userInput
  | knowledgeBaseGuideline | knowledgeBaseAdditionalGuideline
  | respondToUserKnowledgeBaseAdditionalGuideline | searchResults => some .knowledgeBases
  | memoryGuideline | memoryContent | memoryActionGuideline | memorySynopsis
  | pastConversationSummary => some .memory
  | promptSessionAttributes => some .actionGroups
  | codeInterpreterGuideline | codeInterpreterFiles => some .codeInterpreter
  | _ => none

/-- The placeholder of a name. -/
def ofName? (name : String) : Option Placeholder := all.find? fun p => p.name == name

/-- The placeholder as it stands in a template. -/
def token (p : Placeholder) : String := "$" ++ p.name ++ "$"

/-- Whether the value is known when an agent is compiled. -/
def isCompileTime (p : Placeholder) : Bool := p.phase != .runtime

end Placeholder

end AgentCompiler
