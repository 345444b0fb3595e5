import AgentCompiler.Agent.Definition
import AgentCompiler.Document.Decode

/-!
# Reading agent definitions

What a definition looks like as a document. Every record lists its fields in declaration order, with
the defaults of those that need not be there.
-/

namespace AgentCompiler.Reading

open Document Document.Decode

/-- The names of the kinds of prompts. -/
def promptKind : Decoder PromptKind := name (PromptKind.all.map fun k => (k.name, k))

/-- How an agent works with its collaborators. -/
def collaboration : Decoder Collaboration :=
  name [("DISABLED", .disabled), ("disabled", .disabled), ("SUPERVISOR", .supervisor),
    ("supervisor", .supervisor), ("SUPERVISOR_ROUTER", .router), ("supervisor_router", .router)]

/-- A built-in group. -/
def builtin : Decoder Builtin :=
  name [("user_input", .userInput), ("code_interpreter", .codeInterpreter)]

/-- How a model samples. -/
def inference : Decoder Inference :=
  record "struct InferenceConfig"
    [defaulted "temperature" real fun s v => { s with temperature := v },
      defaulted "top_p" real fun s v => { s with topP := v },
      defaulted "top_k" (word 32) fun s v => { s with topK := v },
      defaulted "maximum_length" (word 32) fun s v => { s with maximumLength := v },
      defaulted "stop_sequences" (list text) fun s v => { s with stopSequences := v }]
    {}

/-- The settings of a kind of prompt. -/
def prompt : Decoder PromptSettings :=
  record "struct PromptConfig"
    [required "prompt_type" promptKind fun s v => { s with kind := v },
      defaulted "base_template" json fun s v => { s with template := v },
      defaulted "inference" inference fun s v => { s with inference := v },
      defaulted "enabled" bool fun s v => { s with enabled := v }]
    { kind := .orchestration }

/-- A guardrail. -/
def guardrail : Decoder Guardrail :=
  record "struct GuardrailRef"
    [required "id" text fun s v => { s with id := v },
      defaulted "version" text fun s v => { s with version := v }]
    { id := "" }

/-- A knowledge base. -/
def knowledgeBase : Decoder KnowledgeBase :=
  record "struct KnowledgeBase"
    [required "name" text fun s v => { s with name := v },
      defaulted "description" text fun s v => { s with description := v },
      required "id" text fun s v => { s with id := v },
      defaulted "region" (optional text) fun s v => { s with region := v }]
    { name := "", id := "" }

/-- What an agent remembers. -/
def memory : Decoder MemorySettings :=
  record "struct MemoryConfig"
    [defaulted "enabled_memory_types" (list text) fun s v => { s with enabledTypes := v },
      defaulted "storage_days" (word 32) fun s v => { s with storageDays := v },
      defaulted "max_recent_sessions" (word 32) fun s v => { s with maxRecentSessions := v }]
    {}

/-- The services of the platform. -/
def primitives : Decoder Primitives :=
  record "struct EnabledPrimitives"
    [defaulted "gateway" bool fun s v => { s with gateway := v },
      defaulted "memory" bool fun s v => { s with memory := v },
      defaulted "code_interpreter" bool fun s v => { s with codeInterpreter := v },
      defaulted "observability" bool fun s v => { s with observability := v }]
    {}

/-! ## Action groups -/

/-- What a definition says about a parameter of a function. -/
structure ParameterSettings where
  tag : String := "string"
  description : String := ""
  required : Bool := false

/-- The settings of a parameter. -/
def parameterSettings : Decoder ParameterSettings :=
  record "struct RawFunctionParameter"
    [defaulted "type" text fun s v => { s with tag := v },
      defaulted "description" text fun s v => { s with description := v },
      defaulted "required" bool fun s v => { s with required := v }]
    {}

/-- A parameter of a function. Its settings are read as a value of their own, so that a key that is
repeated in them counts once. -/
def parameter (depth : Nat) (name : String) (settings : Json) : Except Fault Api.Parameter :=
  (fun s => {
    name, description := s.description, required := s.required, schema := some (Api.tagSchema s.tag) })
    <$> parameterSettings .value depth (Node.ofJson settings)

/-- The parameters of a function, by their names. -/
def parameters : Decoder (List Api.Parameter) := fun source depth n =>
  match n with
  | .map _ _ => do
    match ← json source depth n with
    | .obj ms => ms.mapM fun (name, settings) => parameter maxDepth name settings
    | _ => .ok []
  | n => mismatch n "a map"

/-- A function of a group. -/
def function : Decoder Function :=
  record "struct FunctionSpec"
    [required "name" text fun s v => { s with name := v },
      defaulted "description" text fun s v => { s with description := v },
      defaulted "parameters" parameters fun s v => { s with parameters := v }]
    { name := "" }

/-- The tags of executors; a remote function or not. -/
def executor : Decoder Executor :=
  tagged "internally tagged enum Executor" [("function", true), ("return_control", false)] fun remote =>
    if remote then
      record "struct variant Executor::Function"
        [required "function_ref" text fun _ v => .function v] (.function "")
    else unitVariant .returnControl

/-- Where the operations of a group are described. -/
def actionSchema : Decoder ActionSchema :=
  tagged "internally tagged enum ActionSchema" [("open_api", true), ("functions", false)] fun open_ =>
    if open_ then
      record "struct variant ActionSchema::OpenApi"
        [required "document" json fun _ v => .interface v] (.interface .null)
    else
      record "struct variant ActionSchema::Functions"
        [required "functions" (list function) fun _ v => .functions v] (.functions [])

/-- An action group. -/
def actionGroup : Decoder ActionGroup :=
  record "struct ActionGroup"
    [required "name" text fun s v => { s with name := v },
      defaulted "description" text fun s v => { s with description := v },
      defaulted "enabled" bool fun s v => { s with enabled := v },
      defaulted "executor" executor fun s v => { s with executor := v },
      defaulted "schema" (optional actionSchema) fun s v => { s with schema := v },
      defaulted "builtin" (optional builtin) fun s v => { s with builtin := v }]
    { name := "" }

/-! ## Definitions -/

/-- A collaborator while it is read. -/
structure CollaboratorDraft where
  delegation : Delegation
  definition : Option Definition := none

/-- A collaborator, given how the definition inside it is read. -/
def collaborator (inner : Node → Except Fault Definition) : Decoder CollaboratorDraft :=
  record "struct Collaborator"
    [required "name" text fun s v => { s with delegation.name := v },
      defaulted "instruction" text fun s v => { s with delegation.instruction := v },
      defaulted "relay_history" bool fun s v => { s with delegation.relayHistory := v },
      required "agent" (fun _ _ n => inner n) fun s v => { s with definition := some v }]
    { delegation := { name := "" } }

/-- A definition while it is read. -/
structure Draft where
  agent : Agent
  collaborators : List CollaboratorDraft := []

/-- The definition of a draft whose collaborators were all read. -/
def Draft.finish (d : Draft) : Definition :=
  .node d.agent (d.collaborators.filterMap fun c => c.definition.map fun a => (c.delegation, a))

/-- The fields of a definition, given how the definitions inside it are read. -/
def fields (inner : Node → Except Fault Definition) : List (Slot Draft) :=
  [required "name" text fun s v => { s with agent.name := v },
    defaulted "id" text fun s v => { s with agent.id := v },
    defaulted "alias" text fun s v => { s with agent.aliasName := v },
    defaulted "version" text fun s v => { s with agent.version := v },
    required "model_id" text fun s v => { s with agent.modelId := v },
    defaulted "provider" (optional text) fun s v => { s with agent.provider := v },
    defaulted "region" text fun s v => { s with agent.region := v },
    defaulted "description" text fun s v => { s with agent.description := v },
    defaulted "instruction" text fun s v => { s with agent.instruction := v },
    defaulted "idle_timeout_secs" (word 64) fun s v => { s with agent.idleTimeoutSeconds := v },
    defaulted "guardrail" (optional guardrail) fun s v => { s with agent.guardrail := v },
    defaulted "action_groups" (list actionGroup) fun s v => { s with agent.actionGroups := v },
    defaulted "knowledge_bases" (list knowledgeBase) fun s v => { s with agent.knowledgeBases := v },
    defaulted "collaboration" collaboration fun s v => { s with agent.collaboration := v },
    defaulted "collaborators" (list (collaborator inner)) fun s v => { s with collaborators := v },
    defaulted "prompts" (list prompt) fun s v => { s with agent.prompts := v },
    defaulted "memory" (optional memory) fun s v => { s with agent.memory := v },
    defaulted "primitives" primitives fun s v => { s with agent.primitives := v }]

/-- A definition, given how the definitions inside it are read. -/
def definitionWith (inner : Node → Except Fault Definition) : Decoder Definition :=
  fun source depth n =>
    Draft.finish <$> record "struct AgentDefinition" (fields inner)
      { agent := { name := "", modelId := "" } } source depth n

/-- A definition. One inside another stands three containers deeper: in a collaborator, in the list of
them, in the outer definition. -/
def definition (source : Source) : (depth : Nat) → Node → Except Fault Definition
  | depth + 3, n => definitionWith (definition source depth) source (depth + 3) n
  | depth, n => definitionWith (fun _ => .error .malformed) source depth n

/-- Decodes a value. -/
def ofJson {α : Type} (d : Decoder α) (j : Json) : Except Fault α :=
  d .value maxDepth (Node.ofJson j)

/-- Decodes a definition that was read as a value. -/
def definitionOfJson (j : Json) : Except Fault Definition :=
  definition .value maxDepth (Node.ofJson j)

/-- Decodes a collaborator that was read as a value. -/
def collaboratorOfJson (j : Json) : Except Fault (Delegation × Definition) := do
  let draft ← ofJson (collaborator (definition .value maxDepth)) j
  match draft.definition with
  | some d => .ok (draft.delegation, d)
  | none => .error (.missingField "agent")

/-- Decodes the definition in a document. -/
def definitionOfDocument (doc : Document.Parsed) : Except Fault Definition := do
  let d ← definition .text doc.depth doc.root
  close doc.ended d

end AgentCompiler.Reading
