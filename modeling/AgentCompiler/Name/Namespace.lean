import AgentCompiler.Name.Bounded
import AgentCompiler.Name.Distinct

/-!
# Namespaces of a gateway

Behind a gateway the tools of an action group share a namespace. A namespace and a tool's name
together make the key by which a call is dispatched, and they share one budget of characters.
-/

namespace AgentCompiler.Name

/-- The characters that a namespace and the tools in it share. -/
def namespaceShare : Nat := 54

/-- The most characters of a namespace before its digest. -/
def namespaceLength : Nat := 24

/-- One namespace for each of an agent's action groups. -/
def namespaces (groups : List String) : List String :=
  (distinct (groups.map snake)).map fun n => prune n namespaceLength

/-- The characters left for the names of tools inside a namespace. -/
def namespaceBudget (space : String) : Nat := namespaceShare - space.utf8ByteSize

/-- The key by which a gateway's call to a tool is dispatched. -/
def dispatchKey (space tool : String) : String := space ++ "___" ++ tool

end AgentCompiler.Name
