import AgentCompiler.Agent.Definition
import AgentCompiler.Code.Literal
import AgentCompiler.Text.Lines
import AgentCompiler.Text.Marker
import AgentCompiler.Tool.Basic
import AgentCompiler.Typing.Render

/-!
# The code of tools

A tool becomes a function behind a decorator. What it does depends on its body and its operation; the
texts below hold markers for what differs from tool to tool.
-/

namespace AgentCompiler.Tool

/-- What a remote function is told about the agent that calls it. -/
def metadata (a : Agent) : Json :=
  .obj [("name", .str a.name), ("id", .str a.id), ("alias", .str a.aliasName), ("version", .str a.version)]

/-- The functions that every tool with a remote function uses. -/
def helpersText : String :=
  Text.ofLines [
    "AGENT_METADATA = {{metadata}}",
    "",
    "",
    "def _dump_input(input_data):",
    "    if input_data is None:",
    r"        return {}",
    "    if isinstance(input_data, BaseModel):",
    "        return input_data.model_dump(exclude_unset=True, by_alias=True)",
    "    return dict(input_data)",
    "",
    "",
    "def _action_payload(action_group):",
    r"    return {",
    r#"        "messageVersion": "1.0","#,
    r#"        "agent": AGENT_METADATA,"#,
    r#"        "sessionId": "","#,
    r#"        "sessionAttributes": {},"#,
    r#"        "promptSessionAttributes": {},"#,
    r#"        "actionGroup": action_group,"#,
    r#"        "inputText": last_input,"#,
    r"    }",
    "",
    "",
    "def _invoke_action_group(function_ref, region, payload):",
    r#"    lambda_client = boto3.client("lambda", region_name=region)"#,
    "    response = lambda_client.invoke(",
    "        FunctionName=function_ref,",
    r#"        InvocationType="RequestResponse","#,
    "        Payload=json.dumps(payload),",
    "    )",
    r#"    return json.loads(response["Payload"].read().decode("utf-8"))"#]

/-- A tool that sends a request to a remote function. -/
def requestText : String :=
  Text.ofLines [
    "{{decorator}}",
    "def {{name}}({{signature}}) -> str:",
    "    {{docstring}}",
    "    {{params_dump}}",
    "    {{body_dump}}",
    "    payload = _action_payload({{action_group}})",
    r"    payload.update({",
    r#"        "apiPath": {{path}},"#,
    r#"        "httpMethod": {{method}},"#,
    r#"        "parameters": [{"name": name, "value": value} for name, value in params_dump.items()],"#,
    r"    })",
    "    if body_dump:",
    r#"        content_type = body_dump.pop("content_type_annotation", {{media_type}})"#,
    r#"        payload["requestBody"] = {"#,
    r#"            "content": {"#,
    r"                content_type: {",
    r#"                    "properties": [{"name": name, "value": value} for name, value in body_dump.items()]"#,
    r"                }",
    r"            }",
    r"        }",
    "",
    "    try:",
    "        return str(_invoke_action_group({{function_ref}}, {{region}}, payload))",
    "    except Exception as e:",
    r#"        return f"Error executing {{name}}: {str(e)}""#]

/-- A tool that calls a remote function by the name of the function. -/
def functionText : String :=
  Text.ofLines [
    "{{decorator}}",
    "def {{name}}({{signature}}) -> str:",
    "    {{docstring}}",
    "    model_dump = {{dump}}",
    "    parameter_types = {{parameter_types}}",
    "    payload = _action_payload({{action_group}})",
    r"    payload.update({",
    r#"        "function": {{function}},"#,
    r#"        "parameters": ["#,
    r#"            {"name": name, "type": parameter_types.get(name, "string"), "value": value}"#,
    "            for name, value in model_dump.items()",
    "        ],",
    r"    })",
    "",
    "    try:",
    "        return str(_invoke_action_group({{function_ref}}, {{region}}, payload))",
    "    except Exception as e:",
    r#"        return f"Error executing {{name}}: {str(e)}""#]

/-- A tool that asks whoever runs the agent. -/
def askText : String :=
  Text.ofLines [
    "{{decorator}}",
    "def {{name}}({{signature}}) -> str:",
    "    {{docstring}}",
    "    return input({{prompt}})"]

/-- The functions that every tool with a remote function uses. -/
def helpers (a : Agent) : String :=
  Text.fill helpersText [("metadata", Code.prettyLiteral (metadata a))]

/-- What stands between the brackets of the function. -/
def signature : ToolInput → String
  | .none => ""
  | .typed type => "input_data: " ++ type.hint
  | .untyped => "input_data: Optional[Dict[str, Any]] = None"

/-- The input as a mapping. -/
def dump : ToolInput → String
  | .none => r"{}"
  | _ => "_dump_input(input_data)"

/-- What whoever runs the agent is asked. With an input it is a text with a hole. -/
def prompt (t : Tool) : String :=
  match t.input with
  | .none =>
    Code.quote ("Return of control: " ++ t.name ++ " was called, enter desired output:")
  | _ =>
    r#"f"Return of control: "# ++ t.name ++
      r#" was called with the input {input_data}, enter desired output:""#

/-- The two statements that take parameters and body out of the input. The input is a record of both
when the request has both, and is the one there is else. -/
def split (input : ToolInput) (hasParameters hasBody : Bool) : String × String :=
  let given := dump input
  let empty := r"{}"
  match input, hasParameters, hasBody with
  | .none, _, _ => ("params_dump = " ++ empty, "body_dump = " ++ empty)
  | .typed _, true, false => ("params_dump = " ++ given, "body_dump = " ++ empty)
  | _, false, _ => ("params_dump = " ++ empty, "body_dump = " ++ given)
  | _, _, _ =>
    ("model_dump = " ++ given ++ "\n    params_dump = model_dump.get(\"parameters\") or " ++ empty,
      r#"body_dump = dict(model_dump.get("request_body") or "# ++ empty ++ ")")

/-- The markers that every tool fills. -/
def commonValues (t : Tool) (decorator : String) : List (String × String) :=
  [("decorator", decorator), ("name", t.name), ("signature", signature t.input),
    ("docstring", Code.tripleQuote t.description)]

/-- The function of a tool, behind a decorator. -/
def render (t : Tool) (decorator : String) : String :=
  let common := commonValues t decorator
  match t.body, t.operation with
  | .ask, _ => Text.fill askText (common ++ [("prompt", prompt t)])
  | .invoke reference region, .request path method hasParameters mediaType =>
    let (parameters, body) := split t.input hasParameters mediaType.isSome
    Text.fill requestText (common ++
      [("params_dump", parameters), ("body_dump", body), ("action_group", Code.quote t.group),
        ("path", Code.quote path), ("method", Code.quote method),
        ("media_type", Code.quote (mediaType.getD "application/json")),
        ("function_ref", Code.quote reference), ("region", Code.quote region)])
  | .invoke reference region, .function name parameterTypes =>
    let types := Table.ofEntries (parameterTypes.map fun (n, tag) => (n, .str tag))
    Text.fill functionText (common ++
      [("dump", dump t.input), ("parameter_types", Code.literal (.obj types)),
        ("action_group", Code.quote t.group), ("function", Code.quote name),
        ("function_ref", Code.quote reference), ("region", Code.quote region)])

end AgentCompiler.Tool
