import AgentCompiler.Agent.Definition
import AgentCompiler.Code.Literal
import AgentCompiler.Name.Identifier
import AgentCompiler.Profile.Basic
import AgentCompiler.Text.Lines
import AgentCompiler.Text.Marker

/-!
# Tools for knowledge bases and what is built in
-/

namespace AgentCompiler.Assembly

/-- The search of a knowledge base in a graph. -/
def graphRetrievalText : String :=
  Text.ofLines [
    "retriever_{{name}} = AmazonKnowledgeBasesRetriever(",
    "    knowledge_base_id={{id}},",
    r#"    retrieval_config={"vectorSearchConfiguration": {"numberOfResults": 5}},"#,
    "    region_name={{region}},",
    ")",
    "retriever_tool_{{name}} = retriever_{{name}}.as_tool(",
    "    name={{tool_name}},",
    "    description={{description}},",
    ")"]

/-- The search of a knowledge base in a loop. -/
def loopRetrievalText : String :=
  Text.ofLines [
    "@tool",
    "def retrieve_{{name}}(query: str):",
    "    {{docstring}}",
    r#"    client = boto3.client("bedrock-agent-runtime", region_name={{region}})"#,
    "    return client.retrieve(",
    r#"        retrievalQuery={"text": query},"#,
    "        knowledgeBaseId={{id}},",
    r"        retrievalConfiguration={",
    r#"            "vectorSearchConfiguration": {"numberOfResults": 10},"#,
    r"        },",
    r#"    ).get("retrievalResults", [])"#]

/-- What a model is told about a knowledge base. -/
def retrievalDescription (k : KnowledgeBase) : String :=
  "This is a knowledge base with the following description: " ++ k.description ++
    ". Invoke it with a query to get relevant results."

/-- The name of the tool that searches a knowledge base. -/
def retrievalTool (profile : Profile) (k : KnowledgeBase) : String :=
  match profile with
  | .langgraph => "retriever_tool_" ++ Name.snake k.name
  | .strands => "retrieve_" ++ Name.snake k.name

/-- The tool that searches a knowledge base, which is in the agent's region when it names none. -/
def retrievalCode (profile : Profile) (k : KnowledgeBase) (region : String) : String :=
  let name := Name.snake k.name
  let region := Code.quote (k.region.getD region)
  match profile with
  | .langgraph =>
    Text.fill graphRetrievalText
      [("name", name), ("id", Code.quote k.id), ("region", region),
        ("tool_name", Code.quote ("kb_" ++ name)),
        ("description", Code.quote (retrievalDescription k))]
  | .strands =>
    Text.fill loopRetrievalText
      [("name", name), ("docstring", Code.tripleQuote (retrievalDescription k)),
        ("region", region), ("id", Code.quote k.id)]

/-- The tools of knowledge bases and of built-in groups, in the order in which a model gets them. -/
def builtinTools (profile : Profile) (a : Agent) : List String :=
  a.knowledgeBases.map (retrievalTool profile) ++
    (if a.hasBuiltin .userInput then ["user_input_tool"] else []) ++
    (if a.hasBuiltin .codeInterpreter then ["code_tool"] else [])

/-- The tool that asks the user. -/
def userInputTool : String :=
  Text.ofLines [
    "@tool",
    "def user_input_tool(user_targeted_question: str) -> str:",
    r#"    """Ask the human for guidance when you are stuck or unsure what to do next. The input is a question for the human. When you lack the parameters needed to invoke a function, use this tool to ask the user for them.""""#,
    "    return input(user_targeted_question)"]

end AgentCompiler.Assembly
