import AgentCompiler.Prompt.Fixture

/-!
# Why a run ends early
-/

namespace AgentCompiler

/-- What ends a run. -/
inductive RunFault
  /-- An agent is below itself; the identities lead from the root to it. -/
  | cyclic (chain : List String)
  /-- A template holds a token that it must not hold. -/
  | badTemplate (fault : Prompt.TokenFault)
  /-- A request was refused. -/
  | refused (what reason : String)
  /-- The types of an agent's tools nest without end. -/
  | endlessSchema (agentName : String)
deriving DecidableEq

/-- The wording of a fault. -/
def RunFault.message : RunFault → String
  | cyclic chain => "collaborator cycle detected: " ++ String.intercalate " -> " chain
  | badTemplate fault => fault.message
  | refused what _ => "provisioning " ++ what ++ " failed"
  | endlessSchema agentName => "schemas of '" ++ agentName ++ "' nest too deeply"

end AgentCompiler
