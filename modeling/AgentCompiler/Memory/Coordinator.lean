import AgentCompiler.Text.Lines

/-!
# Session coordinators

The root of a tree of agents makes one coordinator, and every module hands it on to the collaborators
below which there is a memory manager.
-/

namespace AgentCompiler.Memory

/-- The code that binds a module to a coordinator. `registers` says whether the module has a manager of
its own, and `children` are the functions that bind its collaborators. -/
def coordinatorBinding (registers : Bool) (children : List String) : String :=
  let own := if registers then ["    coordinator.register(memory_manager)"] else []
  let statements := own ++ children.map fun child => "    " ++ child ++ "(coordinator)"
  Text.ofLines ("def bind_session_coordinator(coordinator):" ::
    if statements.isEmpty then ["    pass"] else statements)

/-- The code of the root that makes the coordinator. -/
def rootCoordinator : String :=
  Text.ofLines [
    "session_coordinator = SessionCoordinator()",
    "bind_session_coordinator(session_coordinator)"]

/-- What the root imports for it. -/
def rootCoordinatorImport : String := "from ltm_memory_manager import SessionCoordinator"

end AgentCompiler.Memory
