import AgentCompiler.Agent.Definition
import AgentCompiler.Code.Literal
import AgentCompiler.Prompt.Default
import AgentCompiler.Prompt.Fixture
import AgentCompiler.Prompt.Template
import AgentCompiler.Text.Marker
import AgentCompiler.Text.Wrap

/-!
# Compiling templates

Every token of a template has to name a placeholder. Then the placeholders of features that the agent
lacks are taken out, and those known at compile time are filled, one after the other. What is left are
placeholders that the generated code fills.
-/

namespace AgentCompiler.Prompt

/-- The features of an agent. -/
structure Features where
  knowledgeBases : Bool := false
  memory : Bool := false
  userInput : Bool := false
  actionGroups : Bool := false
  codeInterpreter : Bool := false
deriving DecidableEq

namespace Features

/-- The features of an agent. -/
def ofAgent (a : Agent) : Features where
  knowledgeBases := !a.knowledgeBases.isEmpty
  memory := a.memoryEnabled
  userInput := a.hasBuiltin .userInput
  actionGroups := a.hasActionGroups
  codeInterpreter := a.hasBuiltin .codeInterpreter

/-- Whether a feature is there. -/
def has (f : Features) : Feature → Bool
  | .knowledgeBases => f.knowledgeBases
  | .memory => f.memory
  | .userInput => f.userInput
  | .actionGroups => f.actionGroups
  | .codeInterpreter => f.codeInterpreter

/-- Whether a placeholder stays: it depends on no feature, or on one that is there. -/
def keeps (f : Features) (p : Placeholder) : Bool :=
  match p.feature with
  | none => true
  | some feature => f.has feature

end Features

/-- The values that come from the definition of an agent. -/
structure Values where
  instruction : String := ""
  agentCollaborators : String := ""
  reachableAgents : String := ""
  toolsForRouting : String := ""
  knowledgeBasesForRouting : String := ""
deriving DecidableEq

/-- The value of a placeholder that is filled from the definition. -/
def Values.get (v : Values) : Placeholder → String
  | .instruction => v.instruction
  | .agentCollaborators => v.agentCollaborators
  | .reachableAgents => v.reachableAgents
  | .toolsForRouting => v.toolsForRouting
  | .knowledgeBasesForRouting => v.knowledgeBasesForRouting
  | _ => ""

/-- What templates are compiled with. -/
structure Setting where
  fixtures : Fixtures
  features : Features
  values : Values

/-- What is put in the place of a placeholder; none when the generated code fills it. -/
def Setting.replacement (s : Setting) (p : Placeholder) : Option String :=
  if !s.features.keeps p then some ""
  else
    match p.phase with
    | .fixture => some (s.fixtures.text p)
    | .definition => some (s.values.get p)
    | .runtime => none

/-- Puts the value of one placeholder into a text. -/
def Setting.substitute (s : Setting) (text : String) (p : Placeholder) : String :=
  match s.replacement p with
  | some value => Text.replace text p.token value
  | none => text

/-- The first token of a text that names no placeholder. -/
def unknownToken? (text : String) : Option String :=
  (tokens text).find? fun t => (Placeholder.ofName? t).isNone

/-- A phrase about a tool that generated agents do not have. -/
def messagePhrase : String := "using the AgentCommunication__sendMessage tool"

/-- The width of the lines of a template. -/
def lineWidth : Nat := 150

/-- Compiles a template. `place` names it in faults. -/
def Setting.compile (s : Setting) (place template : String) : Except TokenFault String :=
  match unknownToken? template with
  | some name => .error (.unknown place name)
  | none =>
    let text := Placeholder.all.foldl s.substitute template
    .ok (Text.wrap (Text.replace text messagePhrase "") lineWidth)

/-! ## The prompts of an agent -/

/-- A prompt of a module. -/
structure Compiled where
  kind : PromptKind
  template : String
  inference : Inference

/-- Whether an agent takes a step at all. -/
def isApplicable (d : Definition) (f : Features) : PromptKind → Bool
  | .knowledgeBaseResponseGeneration => f.knowledgeBases
  | .routingClassifier => d.isRouter
  | .memorySummarization => f.memory
  | .orchestration | .preProcessing | .postProcessing => true

/-- The template and the inference for a kind of prompt: the configured ones, where a blank template
gives way to the default. -/
def source? (a : Agent) (kind : PromptKind) : Option (String × Inference) :=
  let settings := a.prompt? kind
  let inference := (settings.map (·.inference)).getD {}
  let configured := (settings.map fun p => templateText p.template).filter fun t => !Text.blank t
  (configured <|> defaultTemplate? kind).map (·, inference)

/-- The prompts of an agent's module, in the order of their kinds. -/
def Setting.prompts (s : Setting) (d : Definition) : Except TokenFault (List Compiled) :=
  (PromptKind.all.filter (isApplicable d s.features)).filterMapM fun kind =>
    match source? d.agent kind with
    | none => pure none
    | some (template, inference) => do
      let text ← s.compile kind.name template
      pure (some ⟨kind, text, inference⟩)

/-- The constant that holds a prompt's template. -/
def Compiled.render (p : Compiled) : String :=
  p.kind.constant ++ " = " ++ Code.tripleQuote ("\n" ++ Text.trim p.template ++ "\n")

/-- The constants of prompts. -/
def renderAll (ps : List Compiled) : String := String.intercalate "\n\n" (ps.map (·.render))

end AgentCompiler.Prompt
