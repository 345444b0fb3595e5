import AgentCompiler.Assembly.Render
import AgentCompiler.Gateway.Dispatch

/-!
# Files of a run
-/

namespace AgentCompiler

/-- A file, with its path below the output directory. -/
structure OutputFile where
  path : String
  text : String
deriving DecidableEq

/-- What a run writes for an agent. -/
inductive Emission
  /-- The function behind the agent's gateway. -/
  | dispatch (function : Gateway.Dispatch)
  /-- The agent's module. -/
  | agentModule (plan : ModulePlan)

namespace Emission

/-- The file of an emission. -/
def file (profile : Profile) : Emission → OutputFile
  | dispatch f => ⟨f.fileName, f.source⟩
  | agentModule p => ⟨p.fileName, p.render profile⟩

/-- The plan of a module. -/
def plan? : Emission → Option ModulePlan
  | dispatch _ => none
  | agentModule p => some p

end Emission

/-- The file of environment variables. -/
def environmentFile : String := ".env"

/-- The text of the file of environment variables. -/
def environmentText (bindings : List (String × String)) : String :=
  String.join (bindings.map fun (key, value) => key ++ "=" ++ value ++ "\n")

/-- What a run gives. -/
structure Output where
  files : List OutputFile
  environment : List (String × String)

/-- The first file under a path. -/
def Output.file? (o : Output) (path : String) : Option OutputFile :=
  o.files.find? fun f => f.path == path

end AgentCompiler
