import AgentCompiler.Api.Parameter

/-!
# Action groups

An action group offers operations to an agent: those of an interface document, or functions. A remote
function serves them, or control is handed back to whoever runs the agent. Two groups are built in and
have no operations of their own.
-/

namespace AgentCompiler

/-- How the operations of a group are carried out. -/
inductive Executor
  /-- By a remote function. -/
  | function (reference : String)
  /-- By whoever runs the agent. -/
  | returnControl
deriving DecidableEq

/-- The groups that are built in. -/
inductive Builtin
  | userInput
  | codeInterpreter
deriving DecidableEq

/-- A function of a group. -/
structure Function where
  name : String
  description : String := ""
  parameters : List Api.Parameter := []

/-- Where the operations of a group are described. -/
inductive ActionSchema
  | interface (document : Json)
  | functions (functions : List Function)

/-- An action group. -/
structure ActionGroup where
  name : String
  description : String := ""
  enabled : Bool := true
  executor : Executor := .returnControl
  schema : Option ActionSchema := none
  builtin : Option Builtin := none

namespace ActionGroup

/-- The remote function behind the group; an empty reference is none. -/
def functionRef? (g : ActionGroup) : Option String :=
  match g.executor with
  | .function reference => if reference.isEmpty then none else some reference
  | .returnControl => none

end ActionGroup

/-- The region of a function whose reference names none. -/
def defaultFunctionRegion : String := "us-west-2"

/-- The region of a remote function: the fourth part of its reference between colons. -/
def functionRegion (reference : String) : String :=
  match (reference.toList.splitOn ':')[3]? with
  | some (c :: cs) => .ofList (c :: cs)
  | _ => defaultFunctionRegion

end AgentCompiler
