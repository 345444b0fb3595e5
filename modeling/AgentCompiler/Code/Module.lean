import AgentCompiler.Text.Blank
import AgentCompiler.Text.Tidy

/-!
# The layout of a generated module

A module is made of nine sections. They are written in a fixed order, the blank ones left out, with two
blank lines between neighbours.
-/

namespace AgentCompiler.Code

/-- The sections of a module, in the order in which they are written. -/
structure Sections where
  imports : String := ""
  models : String := ""
  prompts : String := ""
  collaboration : String := ""
  tools : String := ""
  memory : String := ""
  knowledgeBases : String := ""
  agentSetup : String := ""
  usage : String := ""

/-- The sections in order. -/
def Sections.toList (s : Sections) : List String :=
  [s.imports, s.models, s.prompts, s.collaboration, s.tools, s.memory, s.knowledgeBases,
    s.agentSetup, s.usage]

/-- A section without the line feeds at its ends. -/
def trimLineFeeds (s : List Char) : List Char :=
  ((s.dropWhile (· == '\n')).reverse.dropWhile (· == '\n')).reverse

/-- The text of a module. -/
def Sections.assemble (s : Sections) : String :=
  let bodies := (s.toList.map fun t => trimLineFeeds t.toList).filter fun t => !t.all Text.isBlank
  .ofList (Text.tidyChars (List.intercalate ['\n', '\n', '\n'] bodies))

end AgentCompiler.Code
