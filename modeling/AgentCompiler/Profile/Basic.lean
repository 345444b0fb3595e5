import AgentCompiler.Text.Blank

/-!
# Profiles

Agents are generated for one of two libraries. The modules have one layout; a profile decides on the
code that uses the library.
-/

namespace AgentCompiler

/-- The library that generated code uses. -/
inductive Profile
  /-- Agents as graphs with checkpoints. -/
  | langgraph
  /-- Agents as one loop of conversation. -/
  | strands
deriving DecidableEq

namespace Profile

/-- The name of a profile. -/
def name : Profile → String
  | langgraph => "langgraph"
  | strands => "strands"

/-- The name of the library in generated names. -/
def platform : Profile → String
  | langgraph => "langchain"
  | strands => "strands"

/-- The profile when none is chosen. -/
def standard : Profile := langgraph

/-- The wording for a name that is no profile's. -/
def unknownMessage (name : String) : String :=
  "unknown profile '" ++ name ++ "' (expected langgraph or strands)"

/-- The profile of a name, in upper or lower case; else the name as it is reported. -/
def ofName (name : String) : Except String Profile :=
  match String.ofList ((Text.trim name).toList.map Char.toLower) with
  | "langgraph" | "langchain" | "a" => .ok langgraph
  | "strands" | "b" => .ok strands
  | other => .error other

end Profile

end AgentCompiler
