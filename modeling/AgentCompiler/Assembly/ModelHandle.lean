import AgentCompiler.Agent.Definition
import AgentCompiler.Code.Literal
import AgentCompiler.Model.Catalog
import AgentCompiler.Profile.Basic
import AgentCompiler.Text.Lines
import AgentCompiler.Text.Marker

/-!
# Models of a module

A module declares one model for each kind of prompt that it has.
-/

namespace AgentCompiler.Assembly

/-- A model of a graph. -/
def graphModelText : String :=
  Text.ofLines [
    "llm_{{kind}} = ChatBedrock(",
    "    model_id={{model_id}},",
    "    region_name={{region}},",
    "    provider={{provider}},",
    r"    model_kwargs={",
    "{{kwargs}}",
    r"    },{{guardrails}}",
    ")"]

/-- A model of a loop. -/
def loopModelText : String :=
  Text.ofLines [
    "llm_{{kind}} = BedrockModel(",
    "    model_id={{model_id}},",
    "    region_name={{region}},",
    "    temperature={{temperature}},",
    "    max_tokens={{max_tokens}},",
    "    stop_sequences={{stop_sequences}},",
    "    top_p={{top_p}},",
    "    top_k={{top_k}},",
    ")"]

/-- A floating-point number. -/
def real (x : Binary64) : String := .ofList x.codeText

/-- One argument of a graph's model. -/
def argument (name value : String) : String :=
  "        " ++ Code.quote name ++ ": " ++ value ++ ","

/-- How a graph's model samples. Only some families take a number of candidates and stop sequences. -/
def samplingArguments (model : Model.Resolved) (i : Inference) : List String :=
  let extra (s : String) : List String := if model.samplingExtras then [s] else []
  extra (argument "top_k" (Decimal.natural i.topK)) ++
    [argument "top_p" (real i.topP), argument "temperature" (real i.temperature),
      argument "max_tokens" (Decimal.natural i.maximumLength)] ++
    extra (argument "stop_sequences" (Code.strings i.stopSequences))

/-- The filter of a graph's model. -/
def guardrailArgument (g : Option Guardrail) : String :=
  match g with
  | some g =>
    "\n    guardrails=" ++ Code.literal (.obj [("guardrailIdentifier", .str g.id),
      ("guardrailVersion", .str g.version)]) ++ ","
  | none => ""

/-- The declaration of a model. A loop applies no filter, since it would see every turn, results of
tools included. -/
def modelCode (profile : Profile) (kind : PromptKind) (model : Model.Resolved) (region : String)
    (i : Inference) (guardrail : Option Guardrail) : String :=
  match profile with
  | .langgraph =>
    Text.fill graphModelText
      [("kind", kind.name), ("model_id", Code.quote model.modelId), ("region", Code.quote region),
        ("provider", Code.quote model.provider), ("kwargs", Text.ofLines (samplingArguments model i)),
        ("guardrails", guardrailArgument guardrail)]
  | .strands =>
    Text.fill loopModelText
      [("kind", kind.name), ("model_id", Code.quote model.modelId), ("region", Code.quote region),
        ("temperature", real i.temperature), ("max_tokens", Decimal.natural i.maximumLength),
        ("stop_sequences", Code.strings i.stopSequences), ("top_p", real i.topP),
        ("top_k", Decimal.natural i.topK)]

end AgentCompiler.Assembly
