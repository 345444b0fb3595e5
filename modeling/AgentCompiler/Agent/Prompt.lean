import AgentCompiler.Json.Basic

/-!
# Prompts of an agent

An agent takes its steps with prompts of six kinds, and a definition may set the template of each and
how the model samples.
-/

namespace AgentCompiler

/-- The step that a prompt is for. -/
inductive PromptKind
  | orchestration
  | preProcessing
  | postProcessing
  | memorySummarization
  | knowledgeBaseResponseGeneration
  | routingClassifier
deriving DecidableEq

namespace PromptKind

/-- Every kind, in the order in which modules list them. -/
def all : List PromptKind :=
  [orchestration, preProcessing, postProcessing, memorySummarization,
    knowledgeBaseResponseGeneration, routingClassifier]

/-- The name of a kind in definitions and in generated names. -/
def name : PromptKind → String
  | orchestration => "ORCHESTRATION"
  | preProcessing => "PRE_PROCESSING"
  | postProcessing => "POST_PROCESSING"
  | memorySummarization => "MEMORY_SUMMARIZATION"
  | knowledgeBaseResponseGeneration => "KNOWLEDGE_BASE_RESPONSE_GENERATION"
  | routingClassifier => "ROUTING_CLASSIFIER"

/-- The constant of a module that holds the template. -/
def constant : PromptKind → String
  | orchestration => "ORCHESTRATION_TEMPLATE"
  | preProcessing => "PRE_PROCESSING_TEMPLATE"
  | postProcessing => "POST_PROCESSING_TEMPLATE"
  | memorySummarization => "MEMORY_TEMPLATE"
  | knowledgeBaseResponseGeneration => "KB_GENERATION_TEMPLATE"
  | routingClassifier => "ROUTING_TEMPLATE"

/-- The variable of a module that holds the model. -/
def handle (kind : PromptKind) : String := "llm_" ++ kind.name

end PromptKind

/-- How a model samples. -/
structure Inference where
  temperature : Binary64 := .zero false
  topP : Binary64 := .ofInt 1
  topK : Nat := 250
  maximumLength : Nat := 2048
  stopSequences : List String := []
deriving DecidableEq

/-- What a definition sets for one kind of prompt. -/
structure PromptSettings where
  kind : PromptKind
  /-- A text, or a structured chat template. -/
  template : Json := .null
  inference : Inference := {}
  enabled : Bool := true

end AgentCompiler
