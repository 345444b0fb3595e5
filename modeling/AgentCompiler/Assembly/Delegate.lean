import AgentCompiler.Collaboration.Link
import AgentCompiler.Profile.Basic
import AgentCompiler.Text.Lines
import AgentCompiler.Text.Marker

/-!
# Tools for collaborators
-/

namespace AgentCompiler.Assembly

/-- The tool of a graph that calls a collaborator. -/
def graphDelegateText : String :=
  Text.ofLines [
    "@tool",
    "def {{tool_name}}(query: str, state: Annotated[dict, InjectedState]) -> str:",
    "    {{docstring}}",
    "{{relay}}    invoke_agent_response = {{invoke}}(query{{relay_arg}})",
    "    tools_used.update([msg.name for msg in invoke_agent_response if isinstance(msg, ToolMessage)])",
    "    return invoke_agent_response[-1].content"]

/-- The tool of a loop that calls a collaborator. -/
def loopDelegateText : String :=
  Text.ofLines [
    "@tool",
    "def {{tool_name}}(query: str) -> str:",
    "    {{docstring}}",
    "{{relay}}    invoke_agent_response = {{invoke}}(query{{relay_arg}})",
    "    return str(invoke_agent_response)"]

/-- The statement that takes the conversation so far, in the tool that hands it on. -/
def historyStatement : Profile → String
  | .langgraph => "    relay_history = state.get(\"messages\", [])[:-1]\n"
  | .strands => "    relay_history = get_agent().messages[:-2]\n"

/-- The tool that calls a collaborator. -/
def delegateCode (profile : Profile) (l : Link) : String :=
  let text := match profile with
    | .langgraph => graphDelegateText
    | .strands => loopDelegateText
  let relays := l.delegation.relayHistory
  Text.fill text
    [("tool_name", l.toolName), ("docstring", Code.tripleQuote l.toolDescription),
      ("relay", if relays then historyStatement profile else ""), ("invoke", l.invokeAlias),
      ("relay_arg", if relays then ", relay_history" else "")]

end AgentCompiler.Assembly
