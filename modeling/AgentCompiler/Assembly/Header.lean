import AgentCompiler.Profile.Basic
import AgentCompiler.Text.Lines

/-!
# The imports of a module
-/

namespace AgentCompiler.Assembly

/-- What every module imports. -/
def header : String :=
  Text.ofLines [
    "import json, sys, os, re, io, uuid, asyncio",
    "from typing import Union, Optional, Annotated, Dict, List, Any, Literal",
    "from inputimeout import inputimeout, TimeoutOccurred",
    "from pydantic import BaseModel, Field",
    "import boto3",
    "from dotenv import load_dotenv",
    "from bedrock_agentcore.runtime.context import RequestContext",
    "from bedrock_agentcore import BedrockAgentCoreApp"]

/-- What a module behind a gateway imports. -/
def gatewayImport : String :=
  "from bedrock_agentcore_starter_toolkit.operations.gateway import GatewayClient"

/-- What agents as graphs import. -/
def graphImports : String :=
  Text.ofLines [
    "sys.path.append(os.path.dirname(os.path.abspath(__file__)))",
    "",
    "from langchain_aws import ChatBedrock",
    "from langchain_aws.retrievers import AmazonKnowledgeBasesRetriever",
    "from langchain_core.messages import HumanMessage, SystemMessage, AIMessage, ToolMessage",
    "from langchain.tools import tool",
    "from langgraph.prebuilt import create_react_agent, InjectedState",
    "from langgraph.checkpoint.memory import InMemorySaver"]

/-- What agents as loops import. -/
def loopImports : String :=
  Text.ofLines [
    "sys.path.append(os.path.dirname(os.path.abspath(__file__)))",
    "",
    "from strands import Agent, tool",
    "from strands.agent.conversation_manager import SlidingWindowConversationManager",
    "from strands.models import BedrockModel"]

/-- What a profile imports. -/
def imports : Profile → String
  | .langgraph => graphImports
  | .strands => loopImports

/-- What loops behind a gateway import. -/
def loopGatewayImports : String :=
  Text.ofLines [
    "from mcp.client.streamable_http import streamablehttp_client",
    "from strands.tools.mcp.mcp_client import MCPClient",
    "from concurrent.futures import ThreadPoolExecutor, TimeoutError as FutureTimeoutError"]

/-- What a profile imports for tools behind a gateway. -/
def gatewayImports : Profile → String
  | .langgraph => "from langchain_mcp_adapters.client import MultiServerMCPClient"
  | .strands => loopGatewayImports

/-- What a profile imports to be observed. -/
def observationImport : Profile → String
  | .langgraph => "from opentelemetry.instrumentation.langchain import LangchainInstrumentor"
  | .strands => "from strands.telemetry import StrandsTelemetry"

/-- The code that starts observation. -/
def observationSetup : Profile → String
  | .langgraph => "LangchainInstrumentor().instrument()"
  | .strands =>
    Text.ofLines [
      "strands_telemetry = StrandsTelemetry()",
      "strands_telemetry.setup_meter(enable_console_exporter=True)",
      "strands_telemetry.setup_console_exporter()"]

end AgentCompiler.Assembly
