import AgentCompiler.Code.Literal
import AgentCompiler.Text.Lines
import AgentCompiler.Text.Marker

/-!
# The client of a gateway

A generated module signs in to its gateway with credentials that it finds in the environment.
-/

namespace AgentCompiler.Gateway

/-- The credentials of a gateway, in the order in which they are listed. -/
def credentialKeys : List String :=
  ["client_id", "client_secret", "user_pool_id", "token_endpoint", "scope", "domain_prefix"]

/-- The environment variable that holds a credential, for the gateway whose variables start with
`start`. -/
def credentialVariable (start key : String) : String := start ++ "cognito_" ++ key

/-- The code that signs in. -/
def clientText : String :=
  Text.ofLines [
    "gateway_client = GatewayClient(region_name={{region}})",
    r"client_info = {",
    "{{client_info}}",
    r"}",
    "",
    "access_token = gateway_client.get_access_token_for_cognito(client_info)",
    "mcp_url = {{url}}",
    r"headers = {",
    r#"    "Content-Type": "application/json","#,
    r#"    "Authorization": f"Bearer {access_token}","#,
    r"}"]

/-- The code that signs in to the gateway at an address. -/
def clientSetup (region url start : String) : String :=
  let information := credentialKeys.map fun key =>
    "    " ++ Code.quote key ++ ": os.environ.get(" ++ Code.quote (credentialVariable start key) ++
      r#", ""),"#
  Text.fill clientText
    [("region", Code.quote region), ("client_info", Text.ofLines information), ("url", Code.quote url)]

end AgentCompiler.Gateway
