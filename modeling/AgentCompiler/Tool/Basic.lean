import AgentCompiler.Agent.ActionGroup
import AgentCompiler.Typing.TypeExpr

/-!
# Tools

A tool is one operation of an action group as a model can call it.
-/

namespace AgentCompiler

/-- What a tool takes. -/
inductive ToolInput
  | none
  | typed (type : TypeExpr)
  /-- A plain mapping, where no type could be found. -/
  | untyped
deriving DecidableEq

/-- How a tool does its work. -/
inductive ToolBody
  /-- It invokes a remote function. -/
  | invoke (reference region : String)
  /-- It asks whoever runs the agent. -/
  | ask
deriving DecidableEq

/-- The operation behind a tool. -/
inductive ToolOperation
  /-- A request; the media type is used when the caller names none. -/
  | request (path method : String) (hasParameters : Bool) (mediaType : Option String)
  /-- A function, with the type tags of its parameters in order. -/
  | function (name : String) (parameterTypes : List (String × String))
deriving DecidableEq

/-- A tool. -/
structure Tool where
  name : String
  description : String
  /-- The name of the group it belongs to. -/
  group : String
  input : ToolInput
  body : ToolBody
  operation : ToolOperation
  /-- The schema of its input as a gateway advertises it. -/
  inputSchema : Json

namespace Tool

/-- Whether a remote function does the work. -/
def isBacked (t : Tool) : Bool :=
  match t.body with
  | .invoke _ _ => true
  | .ask => false

end Tool

/-- The tools of one action group. -/
structure ToolGroup where
  /-- The name of the group. -/
  name : String
  /-- What the group is called behind a gateway. -/
  space : String
  functionRef : Option String
  tools : List Tool

/-- Whether a gateway serves the group, so that its tools do not stand in the module. -/
def ToolGroup.isProxied (g : ToolGroup) (gateway : Bool) : Bool := gateway && g.functionRef.isSome

end AgentCompiler
