import AgentCompiler.Collaboration.Router
import AgentCompiler.Memory.Binding
import AgentCompiler.Profile.Basic
import AgentCompiler.Text.Margin

/-!
# The conversation of a module

A module builds its agent when it is first needed, and answers one question after the other with it.
-/

namespace AgentCompiler.Assembly

/-- The statements and expressions of a conversation that profiles differ in. -/
structure Phrases where
  /-- Sets the conversation that a caller hands on. -/
  relay : String
  /-- Sets the conversation as a router's template takes it. -/
  conversation : String
  /-- The conversation as it is handed on. -/
  history : String
  /-- Sets the answer of a router's model. -/
  classify : String
  /-- Sets the output of preprocessing. -/
  preProcess : String
  /-- Sets the response of the agent. -/
  run : String
  latestResponse : String
  responses : String
  /-- Returns what postprocessing makes of the response. -/
  postProcess : String
  /-- Returns the response as it is. -/
  plainReturn : String

/-- The phrases of a graph. -/
def graphPhrases : Phrases where
  relay := r#"agent.update_state(config, {"messages": relayed_messages})"#
  conversation :=
    Text.ofLines [
      r"conversation = agent.checkpointer.get(config) or {}",
      r#"messages = str(conversation.get("channel_values", {}).get("messages", []))"#]
  history := r#"conversation.get("channel_values", {}).get("messages", [])"#
  classify :=
    "routing_choice = llm_ROUTING_CLASSIFIER.invoke([SystemMessage(routing_template), " ++
      "HumanMessage(question)]).content"
  preProcess :=
    "pre_process_output = llm_PRE_PROCESSING.invoke([SystemMessage(PRE_PROCESSING_TEMPLATE), " ++
      "HumanMessage(question)]).content"
  run :=
    r#"response = asyncio.run(agent.ainvoke({"messages": [{"role": "user", "# ++
      r#""content": question}]}, config))"#
  latestResponse := r#"response["messages"][-1].content"#
  responses := r#"str(response["messages"])"#
  postProcess :=
    Text.ofLines [
      "post_process_output = llm_POST_PROCESSING.invoke([HumanMessage(post_process_prompt)])",
      "return [AIMessage(post_process_output.content)]"]
  plainReturn := r#"return response["messages"]"#

/-- The phrases of a loop. -/
def loopPhrases : Phrases where
  relay := "agent.messages = relayed_messages"
  conversation := "messages = str(agent.messages)"
  history := "agent.messages"
  classify :=
    r#"routing_choice = inference(llm_ROUTING_CLASSIFIER, [make_msg("user", question)], "# ++
      "system_prompt=routing_template)"
  preProcess :=
    r#"pre_process_output = inference(llm_PRE_PROCESSING, [make_msg("user", question)], "# ++
      "system_prompt=PRE_PROCESSING_TEMPLATE)"
  run :=
    Text.ofLines [
      "original_stdout = sys.stdout",
      "sys.stdout = io.StringIO()",
      "try:",
      "    response = agent(question)",
      "finally:",
      "    sys.stdout = original_stdout"]
  latestResponse := "str(response)"
  responses := "str(agent.messages)"
  postProcess :=
    r#"return inference(llm_POST_PROCESSING, [make_msg("user", post_process_prompt)])"#
  plainReturn := "return response"

/-- The phrases of a profile. -/
def phrases : Profile → Phrases
  | .langgraph => graphPhrases
  | .strands => loopPhrases

/-- What loops define before they build an agent. -/
def loopHelpers : String :=
  Text.ofLines [
    "def make_msg(role, text):",
    r#"    return {"role": role, "content": [{"text": text}]}"#,
    "",
    "",
    r#"def inference(model, messages, system_prompt=""):"#,
    "    async def run_inference():",
    "        results = []",
    "        async for event in model.stream(messages=messages, system_prompt=system_prompt):",
    "            results.append(event)",
    "        return results",
    "",
    r#"    text = """#,
    "    for chunk in asyncio.run(run_inference()):",
    r#"        if "contentBlockDelta" in chunk:"#,
    r#"            text += chunk["contentBlockDelta"].get("delta", {}).get("text", "")"#,
    "    return text"]

/-- What a module defines before it builds its agent. -/
def agentHelpers : Profile → String
  | .langgraph => r#"config = {"configurable": {"thread_id": "1"}}"#
  | .strands => loopHelpers

/-- Builds an agent as a graph. -/
def graphBuild : String :=
  Text.ofLines [
    "_agent = create_react_agent(",
    "    model=llm_ORCHESTRATION,",
    "    prompt=system_prompt,",
    "    tools=tools,",
    "    checkpointer=checkpointer_STM,",
    ")"]

/-- Builds an agent as a loop. -/
def loopBuild : String :=
  Text.ofLines [
    "_agent = Agent(",
    "    model=llm_ORCHESTRATION,",
    "    system_prompt=system_prompt,",
    "    tools=tools,",
    "    conversation_manager=checkpointer_STM,",
    ")"]

/-- Builds the agent. -/
def buildAgent : Profile → String
  | .langgraph => graphBuild
  | .strands => loopBuild

/-- What a conversation consists of. -/
structure Conversation where
  memory : MemoryBinding
  isRouter : Bool
  /-- Whether a caller may hand a conversation on. -/
  acceptsRelay : Bool
  preProcessing : Bool
  postProcessing : Bool

/-- An expression as a text: one that is not made by `str` is put into it. -/
def asText (expression : String) : String :=
  if "str(".toList.isPrefixOf expression.toList && expression.toList.getLast? == some ')' then
    expression
  else "str(" ++ expression ++ ")"

namespace Conversation

/-- The variables of the module. -/
def state (c : Conversation) : List String :=
  ["_agent = None", r#"last_input = """#, r#"user_id = """#] ++
    if c.isRouter then [r#"last_agent = """#] else []

/-- The statements that build the agent. -/
def rebuild (profile : Profile) (c : Conversation) : List String :=
  (if c.memory.synopsis.isEmpty then [] else [c.memory.synopsis]) ++
    ["system_prompt = ORCHESTRATION_TEMPLATE"] ++
    (if c.memory.isEnabled then
      [r#"system_prompt = system_prompt.replace("$memory_synopsis$", memory_synopsis)"#] else []) ++
    [buildAgent profile]

/-- The function that returns the agent. -/
def getAgent (profile : Profile) (c : Conversation) : String :=
  Text.ofLines [
    "def get_agent():",
    "    global _agent",
    "    if " ++ c.memory.rebuildCondition ++ ":",
    Text.indent (Text.ofLines (c.rebuild profile)) 2,
    "    return _agent"]

/-- The head of the function that answers a question. -/
def signature (c : Conversation) : String :=
  if c.acceptsRelay then "def invoke_agent(question: str, relayed_messages=None):"
  else "def invoke_agent(question: str):"

/-- The statements at the end of an answer. -/
def conclusion (p : Phrases) (c : Conversation) : List String :=
  if c.postProcessing then
    [r#"post_process_prompt = POST_PROCESSING_TEMPLATE.replace("$question$", question)"# ++
        r#".replace("$latest_response$", "# ++ p.latestResponse ++
        r#").replace("$responses$", "# ++ p.responses ++ ")",
      p.postProcess]
  else [p.plainReturn]

/-- The statements that answer a question. -/
def answer (p : Phrases) (c : Conversation) : List String :=
  ["global last_input" ++ (if c.isRouter then ", last_agent" else ""), "last_input = question",
      "agent = get_agent()"] ++
    (if c.acceptsRelay then ["if relayed_messages:\n" ++ Text.indent p.relay 1] else []) ++
    (if c.isRouter then [p.conversation, routerDispatch p.classify p.history] else []) ++
    (if c.preProcessing then
      [p.preProcess, r#"question += "\n<PRE_PROCESSING>{}</PRE_PROCESSING>""# ++
        ".format(pre_process_output)"] else []) ++
    (c.memory.recordTurn? "user" "question").toList ++ [p.run] ++
    (c.memory.recordTurn? "assistant" (asText p.latestResponse)).toList ++ c.conclusion p

/-- The function that answers a question. -/
def invokeAgent (profile : Profile) (c : Conversation) : String :=
  c.signature ++ "\n" ++ Text.indent (Text.ofLines (c.answer (phrases profile))) 1

/-- The code of a conversation. -/
def render (profile : Profile) (c : Conversation) : String :=
  String.intercalate "\n\n\n"
    [agentHelpers profile, Text.ofLines c.state, c.getAgent profile, c.invokeAgent profile]

end Conversation

end AgentCompiler.Assembly
