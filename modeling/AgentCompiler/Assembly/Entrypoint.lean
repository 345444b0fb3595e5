import AgentCompiler.Code.Literal
import AgentCompiler.Memory.Binding
import AgentCompiler.Profile.Basic
import AgentCompiler.Text.Blank
import AgentCompiler.Text.Margin
import AgentCompiler.Text.Marker

/-!
# How a module is run

A module answers messages through an entry point, which the root registers with the runtime, and can be
talked to on the command line.
-/

namespace AgentCompiler.Assembly

/-- The pattern of addresses in an answer. -/
def addressPattern : String :=
  r"(?:https?://|www\.)(?:[a-zA-Z0-9-]+\.)+[a-zA-Z]{2,}(?:/[^/\s]*)*"

/-- The entry point. -/
def entrypointText : String :=
  Text.ofLines [
    "{{decorator}}def endpoint(payload, context):",
    "    try:",
    r#"{{user}}        session_id = context.session_id or payload.get("sessionId", uuid.uuid4().hex[:8])"#,
    "",
    "        tools_used.clear()",
    r#"        agent_query = payload.get("message", "")"#,
    "        if not agent_query:",
    r#"            return {"error": "No query provided, please provide a 'message' field in the payload."}"#,
    "",
    "        agent_result = invoke_agent(agent_query)",
    "",
    "{{tools_used_update}}",
    "        response_content = {{response_content}}",
    "",
    "        sources = []",
    r#"        sources.extend(re.findall(r"{{url_pattern}}", response_content))"#,
    r#"        sources.extend(re.findall(r"<source>(.*?)</source>", response_content))"#,
    "        sources = sorted(set(sources))",
    "",
    r#"        formatted_messages = [(agent_query, "USER"), (response_content if response_content else "No Response.", "ASSISTANT")]"#,
    "{{store}}",
    r"        return {",
    r#"            "result": {"#,
    r#"                "response": response_content,"#,
    r#"                "sources": sources,"#,
    r#"                "tools_used": list(tools_used),"#,
    r#"                "sessionId": session_id,"#,
    r#"                "messages": formatted_messages,"#,
    r"            }",
    r"        }",
    "    except Exception as e:",
    r#"        return {"error": str(e)}"#]

/-- Adds the tools that an answer used. -/
def usedTools : Profile → String
  | .langgraph =>
    "tools_used.update([msg.name for msg in agent_result if isinstance(msg, ToolMessage)])"
  | .strands =>
    Text.ofLines [
      r#"if hasattr(agent_result, "metrics"):"#,
      "    tools_used.update(list(agent_result.metrics.tool_metrics.keys()))"]

/-- The text of an answer. -/
def responseContent : Profile → String
  | .langgraph => "agent_result[-1].content"
  | .strands => "str(agent_result)"

/-- The statements that find out who asks, which a resource of the platform needs. -/
def userStatements : MemoryBinding → String
  | .managed _ _ =>
    "        global user_id\n" ++
      "        user_id = user_id or payload.get(\"userId\", uuid.uuid4().hex[:8])\n"
  | _ => ""

/-- The code of the entry point. -/
def entrypointCode (profile : Profile) (memory : MemoryBinding) (isRoot : Bool) : String :=
  Text.fill entrypointText
    [("decorator", if isRoot then "@app.entrypoint\n" else ""), ("user", userStatements memory),
      ("tools_used_update", Text.indent (usedTools profile) 2),
      ("response_content", responseContent profile), ("url_pattern", addressPattern),
      ("store", (memory.storeExchange?.map fun s => Text.indent s 2 ++ "\n").getD "")]

/-- The loop on the command line. -/
def commandLoopText : String :=
  Text.ofLines [
    "def cli():",
    "    global user_id",
    "    user_id = uuid.uuid4().hex[:8].lower()",
    "    session_id = uuid.uuid4().hex[:8].lower()",
    "    try:",
    "        while True:",
    "            try:",
    r#"                query = inputimeout("\nEnter your question (or 'exit' to quit): ", timeout={{timeout}})"#,
    "            except TimeoutOccurred:",
    r#"                print("\nNo input for {{timeout}} seconds, ending the session.")"#,
    "                break",
    r#"            if query.lower() == "exit":"#,
    "                break",
    "",
    r#"            result = endpoint({"message": query}, RequestContext(session_id=session_id))"#,
    r#"            if "error" in result:"#,
    r#"                print("  Error: " + str(result["error"]))"#,
    "                continue",
    r#"            result = result["result"]"#,
    r#"            print(f"\nResponse: {result.get('response', 'No response provided')}")"#,
    r#"            if result.get("sources"):"#,
    r#"                print(f"\nSources: {', '.join(result['sources'])}")"#,
    r#"            if result.get("tools_used"):"#,
    r#"                print(f"\nTools Used: {', '.join(result['tools_used'])}")"#,
    "    except KeyboardInterrupt:",
    r#"        print("\nExiting...")"#,
    "{{finally}}"]

/-- What a module does when it is run. -/
def mainGuard (isRoot : Bool) : String :=
  Text.ofLines (if isRoot then [
    r#"if __name__ == "__main__":"#,
    r#"    if "--cli" in sys.argv:"#,
    "        cli()",
    "    else:",
    "        app.run()"]
  else [
    r#"if __name__ == "__main__":"#,
    "    cli()"])

/-- The code for the command line. `endSessions` is what is done in the end. -/
def usageCode (idleTimeoutSeconds : Nat) (endSessions : Option String) (isRoot : Bool) : String :=
  let loop := Text.fill commandLoopText
    [("timeout", Decimal.natural idleTimeoutSeconds),
      ("finally", (endSessions.map fun s => "    finally:\n        " ++ s).getD "")]
  Text.trimEnd loop ++ "\n\n\n" ++ mainGuard isRoot

end AgentCompiler.Assembly
