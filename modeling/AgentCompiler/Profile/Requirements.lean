import AgentCompiler.Profile.Basic
import AgentCompiler.Text.Lines

/-!
# Packages that generated code needs
-/

namespace AgentCompiler.Profile

/-- The file that lists the packages. -/
def requirementsFile : String := "requirements.txt"

/-- The packages for agents as graphs. -/
def graphRequirements : String :=
  Text.ofLines [
    "boto3",
    "python-dotenv",
    "pydantic",
    "inputimeout",
    "bedrock-agentcore",
    "bedrock-agentcore-starter-toolkit",
    "langchain",
    "langchain-aws",
    "langchain-core",
    "langgraph",
    "langchain-mcp-adapters",
    "mcp",
    "open-interpreter",
    "opentelemetry-instrumentation-langchain",
    ""]

/-- The packages for agents as loops. -/
def loopRequirements : String :=
  Text.ofLines [
    "boto3",
    "python-dotenv",
    "pydantic",
    "inputimeout",
    "bedrock-agentcore",
    "bedrock-agentcore-starter-toolkit",
    "strands-agents",
    "strands-agents-tools",
    "mcp",
    "open-interpreter",
    ""]

/-- The packages for a profile. -/
def requirements : Profile → String
  | langgraph => graphRequirements
  | strands => loopRequirements

end AgentCompiler.Profile
