import AgentCompiler.Agent.Prompt
import AgentCompiler.Text.Lines

/-!
# Default templates

The templates of the prompts that a generated agent cannot do without.
-/

namespace AgentCompiler.Prompt

/-- The default of the prompt that leads the conversation. -/
def orchestrationTemplate : String :=
  Text.ofLines [
    "$instruction$",
    "",
    "You have been provided with a set of tools to answer the user's question. Always " ++
      "follow these guidelines:",
    "$ask_user_missing_information$",
    "$knowledge_base_guideline$",
    "$code_interpreter_guideline$",
    "$memory_guideline$",
    "$memory_content$",
    "$prompt_session_attributes$"]

/-- The default of the prompt that summarises a conversation. -/
def summaryTemplate : String :=
  Text.ofLines [
    "You summarize conversations between a user and an AI assistant so that later " ++
      "sessions can pick up where this one ended.",
    "",
    "Summaries of earlier sessions:",
    "<past_conversation_summary>",
    "$past_conversation_summary$",
    "</past_conversation_summary>",
    "",
    "Summarize the conversation below. Keep the user's goals, the decisions that were " ++
      "made and any facts the assistant will need later. Write plain prose without " ++
      "preamble.",
    "<conversation>",
    "$conversation$",
    "</conversation>"]

/-- The default of the prompt that chooses a collaborator. -/
def routingTemplate : String :=
  Text.ofLines [
    "You route each user request to the agent best suited to handle it.",
    "",
    "These agents are available:",
    "<agents>",
    "$reachable_agents$",
    "</agents>",
    "",
    "The supervisor can also use these tools itself: $tools_for_routing$",
    "and these knowledge bases: $knowledge_bases_for_routing$",
    "",
    "Conversation so far:",
    "<conversation>",
    "$conversation$",
    "</conversation>",
    "",
    "Agent that handled the previous request: $last_most_specialized_agent$",
    "Latest user request: $last_user_request$",
    "",
    "Answer with exactly one choice wrapped in <a></a> tags: the collaborator name of " ++
      "the agent that should handle the request, keep_previous_agent when the previous " ++
      "agent should continue, or undecidable when the supervisor should answer itself."]

/-- The default template of a kind of prompt. -/
def defaultTemplate? : PromptKind → Option String
  | .orchestration => some orchestrationTemplate
  | .memorySummarization => some summaryTemplate
  | .routingClassifier => some routingTemplate
  | .preProcessing | .postProcessing | .knowledgeBaseResponseGeneration => none

end AgentCompiler.Prompt
