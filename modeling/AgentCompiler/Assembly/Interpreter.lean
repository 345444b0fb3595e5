import AgentCompiler.Code.Literal
import AgentCompiler.Model.Catalog
import AgentCompiler.Profile.Basic
import AgentCompiler.Text.Lines
import AgentCompiler.Text.Margin
import AgentCompiler.Text.Marker

/-!
# The tool that runs code

The code that a model writes is run in a service of the platform, by an agent made for that, or by an
interpreter in the module's own process.
-/

namespace AgentCompiler.Assembly

/-- What the model is told about the tool. -/
def codeToolDoc : String :=
  Text.ofLines [
    r#"    """"#,
    "    INPUT: The original question asked by the user.",
    "    OUTPUT: The output of the code interpreter.",
    "    CAPABILITIES: writing and running code for calculations, data processing and tasks that benefit from code.",
    "",
    "    Do not pass code to this tool. Pass the coding task in the form of the original question you got from the user;",
    "    the tool writes, runs, tests and troubleshoots the code itself.",
    "    Do not ask it to run long tasks such as waiting for user input or running indefinitely.",
    r#"    """"#]

/-- The tool with an interpreter of its own. -/
def localInterpreterText : String :=
  Text.ofLines [
    "interpreter.llm.model = {{model}}",
    "interpreter.llm.supports_functions = True",
    "interpreter.llm.supports_vision = True",
    "interpreter.computer.emit_images = True",
    "interpreter.auto_run = True",
    "interpreter.messages = []",
    "interpreter.anonymized_telemetry = False",
    r#"interpreter.system_message = "USER NOTES: Do not ask the user any questions and do not write code that awaits user input. Output the code you wrote so the calling agent can use it as part of a larger answer.\n" + interpreter.system_message"#,
    "",
    "",
    "@tool",
    "def code_tool(original_question: str) -> str:",
    "{{doc}}",
    "    return str(interpreter.chat(original_question, display=False))"]

/-- The tool with a service of the platform. -/
def managedInterpreterText : String :=
  Text.ofLines [
    r#"CODING_PROMPT = """"#,
    "You are a code interpreter that executes code to answer a query describing a coding task or question.",
    "Write the code, run it in the sandbox, and handle errors you encounter.",
    "Always answer with the actual result, including any output the code produced.",
    "Never run code that waits for user input or runs indefinitely.",
    r#"""""#,
    "",
    "",
    "def _sandbox_result(response):",
    r#"    for event in response.get("stream", []):"#,
    r#"        if "result" in event:"#,
    r#"            result = event["result"]"#,
    r#"            if result.get("isError", False):"#,
    r#"                return {"error": True, "message": result.get("content", "Unknown error")}"#,
    r#"            return {"success": True, "content": result.get("content", {})}"#,
    r#"    return {"error": True, "message": "No result found in event stream"}"#,
    "",
    "",
    "@tool",
    "def code_tool(original_question: str) -> str:",
    "{{doc}}",
    "    with code_interpreter_client.code_session(region={{region}}) as session:",
    "",
    "        @tool",
    "        def execute_code(code: str, language: str):",
    r#"            """Execute a complete code snippet in the sandbox. language names the programming language, e.g. python.""""#,
    r#"            return _sandbox_result(session.invoke(method="executeCode", params={"code": code, "language": language}))"#,
    "",
    "        @tool",
    "        def list_files(path: str):",
    r#"            """List files under a sandbox directory.""""#,
    r#"            return _sandbox_result(session.invoke(method="listFiles", params={"path": path or "/"}))"#,
    "",
    "        @tool",
    "        def read_files(file_paths: List[str]):",
    r#"            """Read files from the sandbox.""""#,
    r#"            return _sandbox_result(session.invoke(method="readFiles", params={"paths": file_paths}))"#,
    "",
    "        @tool",
    "        def write_files(files_to_create: List[Dict[str, str]]):",
    r#"            """Write files to the sandbox. Each entry has a 'path' and a 'text' key.""""#,
    r#"            return _sandbox_result(session.invoke(method="writeFiles", params={"content": files_to_create}))"#,
    "",
    "        @tool",
    "        def remove_files(file_paths: List[str]):",
    r#"            """Remove files from the sandbox.""""#,
    r#"            return _sandbox_result(session.invoke(method="removeFiles", params={"paths": file_paths}))"#,
    "",
    "        coding_tools = [execute_code, list_files, read_files, write_files, remove_files]",
    "{{coding_agent}}"]

/-- What the tool imports. -/
def interpreterImport (managed : Bool) : String :=
  if managed then "from bedrock_agentcore.tools import code_interpreter_client"
  else "from interpreter import interpreter"

/-- The agent that writes code, as a graph. -/
def graphCodingAgent : String :=
  Text.ofLines [
    "coding_agent = create_react_agent(model=llm_ORCHESTRATION, prompt=CODING_PROMPT, tools=coding_tools)",
    r#"coding_agent_input = {"messages": [{"role": "user", "content": original_question}]}"#,
    r#"return coding_agent.invoke(coding_agent_input)["messages"][-1].content"#]

/-- The agent that writes code, as a loop. -/
def loopCodingAgent : String :=
  Text.ofLines [
    "coding_agent = Agent(model=llm_ORCHESTRATION, system_prompt=CODING_PROMPT, tools=coding_tools)",
    "return str(coding_agent(original_question))"]

/-- The agent that writes code. -/
def codingAgent : Profile → String
  | .langgraph => graphCodingAgent
  | .strands => loopCodingAgent

/-- The tool that runs code. -/
def interpreterCode (profile : Profile) (managed : Bool) (model : Model.Resolved) (region : String) :
    String :=
  if managed then
    Text.fill managedInterpreterText
      [("doc", codeToolDoc), ("region", Code.quote region),
        ("coding_agent", Text.indent (codingAgent profile) 2)]
  else
    Text.fill localInterpreterText
      [("doc", codeToolDoc), ("model", Code.quote ("bedrock/" ++ model.modelId))]

end AgentCompiler.Assembly
