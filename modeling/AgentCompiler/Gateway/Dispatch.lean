import AgentCompiler.Gateway.Routing
import AgentCompiler.Gateway.Target
import AgentCompiler.Tool.Source

/-!
# The dispatch function

The function that stands behind a gateway for all the groups of an agent.
-/

namespace AgentCompiler.Gateway

/-- A dispatch function. -/
structure Dispatch where
  name : String
  region : String
  routes : List Route
  source : String

/-- The file that holds the function. -/
def Dispatch.fileName (d : Dispatch) : String := d.name ++ ".py"

/-- The entry point of the function. -/
def Dispatch.handler (d : Dispatch) : String := d.name ++ ".lambda_handler"

/-- The code of a dispatch function. -/
def dispatchText : String :=
  Text.ofLines [
    "import boto3",
    "import json",
    "",
    "agent_metadata = {{metadata}}",
    "tool_mappings = {{mappings}}",
    "",
    "",
    "def get_json_type(value):",
    "    if isinstance(value, str):",
    r#"        return "string""#,
    "    elif isinstance(value, bool):",
    r#"        return "boolean""#,
    "    elif isinstance(value, int):",
    r#"        return "integer""#,
    "    elif isinstance(value, float):",
    r#"        return "number""#,
    "    elif isinstance(value, list):",
    r#"        return "array""#,
    "    elif isinstance(value, dict):",
    r#"        return "object""#,
    "    elif value is None:",
    r#"        return "null""#,
    r#"    return "unknown""#,
    "",
    "",
    "def transform_object(event_obj):",
    "    result = []",
    "    for key, value in event_obj.items():",
    "        json_type = get_json_type(value)",
    r#"        if json_type == "array":"#,
    "            value = [transform_object(item) if isinstance(item, dict) else item for item in value]",
    r#"        elif json_type == "object":"#,
    "            value = transform_object(value)",
    r#"        result.append({"name": key, "value": value, "type": json_type})"#,
    "    return result",
    "",
    "",
    "def lambda_handler(event, context):",
    r"    custom = context.client_context.custom if context.client_context else {}",
    r#"    tool_name = custom.get("bedrockAgentCoreToolName", "")"#,
    r#"    session_id = custom.get("bedrockAgentCoreSessionId", "")"#,
    "",
    "    tool_info = tool_mappings.get(tool_name)",
    "    if not tool_info:",
    r#"        return {"statusCode": 400, "body": f"Tool {tool_name} not found"}"#,
    "",
    r#"    lambda_client = boto3.client("lambda", region_name=tool_info.get("lambdaRegion", "us-west-2"))"#,
    "",
    r"    payload = {",
    r#"        "messageVersion": "1.0","#,
    r#"        "agent": agent_metadata,"#,
    r#"        "actionGroup": tool_info.get("actionGroup", ""),"#,
    r#"        "sessionId": session_id,"#,
    r#"        "sessionAttributes": {},"#,
    r#"        "promptSessionAttributes": {},"#,
    r#"        "inputText": "","#,
    r"    }",
    "",
    r#"    if tool_info.get("type") == "openapi":"#,
    r#"        request_body = dict(event.get("requestBody") or {})"#,
    r#"        content_type = request_body.pop("contentType", "application/json")"#,
    r"        payload.update({",
    r#"            "apiPath": tool_info.get("apiPath", ""),"#,
    r#"            "httpMethod": tool_info.get("httpMethod", "GET"),"#,
    r#"            "parameters": transform_object(event.get("parameters") or {}),"#,
    r#"            "requestBody": {"#,
    r#"                "content": {"#,
    r#"                    content_type: {"properties": transform_object(request_body)}"#,
    r"                }",
    r"            },",
    r"        })",
    "    else:",
    r"        payload.update({",
    r#"            "function": tool_info.get("function", ""),"#,
    r#"            "parameters": transform_object(event),"#,
    r"        })",
    "",
    "    try:",
    "        response = lambda_client.invoke(",
    r#"            FunctionName=tool_info.get("lambdaArn", ""),"#,
    r#"            InvocationType="RequestResponse","#,
    "            Payload=json.dumps(payload),",
    "        )",
    r#"        response_payload = json.loads(response["Payload"].read().decode("utf-8"))"#,
    r#"        return {"statusCode": 200, "body": json.dumps(response_payload)}"#,
    "    except Exception as e:",
    r#"        return {"statusCode": 500, "body": f"Error invoking Lambda: {str(e)}"}"#,
    ""]

/-- The dispatch function of an agent. -/
def Dispatch.ofAgent (a : Agent) (rs : List Route) : Dispatch where
  name := Name.bound (Name.snake a.name ++ "_gateway_proxy") Name.maxLength
  region := a.region
  routes := rs
  source := Text.fill dispatchText
    [("metadata", Code.prettyLiteral (Tool.metadata a)),
      ("mappings", Code.prettyLiteral (routingTable rs))]

/-- What a gateway needs for an agent. -/
structure Plan where
  dispatch : Dispatch
  targets : List Target

/-- The plan for an agent; none when no group is served through a gateway. -/
def plan? (a : Agent) (groups : List ToolGroup) : Option Plan :=
  let rs := routes groups
  if rs.isEmpty then none else some ⟨.ofAgent a rs, targets groups⟩

end AgentCompiler.Gateway
