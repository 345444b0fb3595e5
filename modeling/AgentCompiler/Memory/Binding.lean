import AgentCompiler.Agent.Definition
import AgentCompiler.Code.Literal
import AgentCompiler.Text.Lines
import AgentCompiler.Text.Marker

/-!
# Memory of generated agents

An agent without memory forgets every session. One with memory either keeps summaries in a resource of
the platform, or in a file next to its module, through a manager.
-/

namespace AgentCompiler

/-- Where an agent keeps what it remembers. -/
inductive MemoryBinding
  | disabled
  /-- In a resource of the platform. -/
  | managed (id region : String)
  /-- In a file next to the module. -/
  | selfContained (maxSessions maxDays : Nat) (storageFile : String)
deriving DecidableEq

namespace MemoryBinding

/-- The memory that an agent manages itself, in the module of the given name. -/
def ofAgent (a : Agent) (moduleName : String) : MemoryBinding :=
  match a.memory with
  | some m =>
    if a.memoryEnabled then
      .selfContained m.maxRecentSessions m.storageDays ("session_summaries_" ++ moduleName ++ ".json")
    else .disabled
  | none => .disabled

/-- Whether the agent remembers anything. -/
def isEnabled : MemoryBinding → Bool
  | disabled => false
  | _ => true

/-- Whether sessions have to be ended through a coordinator. -/
def needsCoordinator : MemoryBinding → Bool
  | selfContained _ _ _ => true
  | _ => false

/-- What the module imports for its memory. -/
def imports : MemoryBinding → String
  | disabled => ""
  | managed _ _ => "from bedrock_agentcore.memory import MemoryClient"
  | selfContained _ _ _ => "from ltm_memory_manager import LongTermMemoryManager"

/-- The code that opens a resource. -/
def managedText : String :=
  Text.ofLines [
    "memory_client = MemoryClient(region_name={{region}})",
    "memory_id = {{memory_id}}"]

/-- The code that reads the summaries of a resource. -/
def managedSynopsis : String :=
  Text.ofLines [
    "memories = memory_client.retrieve_memories(",
    "    memory_id=memory_id,",
    r#"    namespace=f"/summaries/{user_id}","#,
    r#"    query="Retrieve the most recent session summaries.","#,
    "    actor_id=user_id,",
    "    top_k=20,",
    ")",
    r#"memory_synopsis = "\n".join([m.get("content", {}).get("text", "") for m in memories])"#]

/-- The code that adds an exchange to a resource. -/
def managedEvent : String :=
  Text.ofLines [
    "memory_client.create_event(",
    "    memory_id=memory_id,",
    "    actor_id=user_id,",
    "    session_id=session_id,",
    "    messages=formatted_messages,",
    ")"]

/-- The code that makes a manager. -/
def managerText : String :=
  Text.ofLines [
    "memory_manager = LongTermMemoryManager(",
    "    llm_MEMORY_SUMMARIZATION,",
    "    storage_path=os.path.join(os.path.dirname(os.path.abspath(__file__)), {{storage_file}}),",
    "    max_sessions={{max_sessions}},",
    "    summarization_prompt=MEMORY_TEMPLATE,",
    "    max_days={{max_days}},",
    "    platform={{platform}},",
    ")"]

/-- The code that opens the memory. `platform` tells a manager how the model is called. -/
def render (platform : String) : MemoryBinding → String
  | disabled => ""
  | managed id region =>
    Text.fill managedText [("region", Code.quote region), ("memory_id", Code.quote id)]
  | selfContained maxSessions maxDays storageFile =>
    Text.fill managerText
      [("max_sessions", Decimal.natural maxSessions), ("max_days", Decimal.natural maxDays),
        ("platform", Code.quote platform), ("storage_file", Code.quote storageFile)]

/-- The code that sets the synopsis of earlier sessions. -/
def synopsis : MemoryBinding → String
  | disabled => ""
  | managed _ _ => managedSynopsis
  | selfContained _ _ _ => "memory_synopsis = memory_manager.get_memory_synopsis()"

/-- When the agent has to be built again. -/
def rebuildCondition : MemoryBinding → String
  | selfContained _ _ _ => "_agent is None or memory_manager.has_memory_changed()"
  | _ => "_agent is None"

/-- The code that records one turn with a manager. -/
def recordTurn? (role content : String) : MemoryBinding → Option String
  | selfContained _ _ _ =>
    some (r#"memory_manager.add_message({"role": "# ++ Code.quote role ++ r#", "content": "# ++
      content ++ r"})")
  | _ => none

/-- The code that adds an exchange to a resource. -/
def storeExchange? : MemoryBinding → Option String
  | managed _ _ => some managedEvent
  | _ => none

end MemoryBinding

end AgentCompiler
