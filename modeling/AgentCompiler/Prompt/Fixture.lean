import AgentCompiler.Document.Decode
import AgentCompiler.Document.TomlText
import AgentCompiler.Files.Host
import AgentCompiler.Prompt.Placeholder
import AgentCompiler.Prompt.Token

/-!
# Fixed texts

The fixture table holds the text of every placeholder that is filled from fixed texts. A file may
replace any of them. A text of the table may hold placeholders of the generated code, and no others.
-/

namespace AgentCompiler.Prompt

/-- What can be wrong with a template or a fixed text. -/
inductive TokenFault
  /-- The token names no placeholder that may stand there. -/
  | unknown (place name : String)
  /-- A fixed text holds a placeholder that is filled at compile time. -/
  | nested (fixture name : String)
deriving DecidableEq

/-- The wording of a fault. -/
def TokenFault.message : TokenFault → String
  | unknown place name => "unknown placeholder `$" ++ name ++ "$` in " ++ place ++ " template"
  | nested fixture name => "fixture `" ++ fixture ++ "` contains placeholder `$" ++ name ++ "$`"

/-- The fixed texts. -/
structure Fixtures where
  text : Placeholder → String

namespace Fixtures

/-- The built-in text of a placeholder. Tools are offered to the model directly, so the placeholders for
lists of them are empty. -/
def builtInText : Placeholder → String
  | .askUserMissingInformation =>
    "If you do not have all the parameters needed to call a function, ask the user for " ++
      "the missing values with the user input tool before calling it. Never guess or " ++
      "invent parameter values."
  | .respondToUserGuideline =>
    "When you need the user to clarify or decide something, ask a single focused " ++
      "question and wait for the answer before continuing."
  | .knowledgeBaseGuideline =>
    "Use the knowledge base tools to look up facts before answering questions about " ++
      "documented topics."
  | .knowledgeBaseAdditionalGuideline =>
    "Only rely on knowledge base results that directly answer the question. When you use " ++
      "a result, cite its location inside <source></source> tags."
  | .respondToUserKnowledgeBaseAdditionalGuideline =>
    "If the knowledge base does not contain the answer, say so plainly instead of " ++
      "guessing."
  | .memoryGuideline =>
    "You have access to summaries of earlier sessions with this user. Use them to keep " ++
      "continuity, but prefer what the user says in the current session when the two " ++
      "disagree."
  | .memoryContent =>
    "<memory_synopsis>\n$memory_synopsis$\n</memory_synopsis>"
  | .memoryActionGuideline =>
    "Do not mention the session summaries unless the user asks about previous " ++
      "conversations."
  | .codeInterpreterGuideline =>
    "Use the code tool for calculations, data processing and any task that benefits from " ++
      "running code. Pass it the original question rather than code."
  | .multiAgentCollaborationGuideline =>
    "Delegate a request to the collaborator whose description matches it best. Pass " ++
      "along every detail the collaborator needs, since it cannot see this conversation " ++
      "unless history is relayed."
  | .actionKbGuideline =>
    "Prefer calling a function over searching a knowledge base when both could answer " ++
      "the question."
  | _ => ""

/-- The built-in table. -/
def builtIn : Fixtures := ⟨builtInText⟩

/-- The table with one text replaced. -/
def update (f : Fixtures) (p : Placeholder) (text : String) : Fixtures :=
  ⟨fun q => if q = p then text else f.text q⟩

/-- Checks the tokens of a fixed text. -/
def checkTokens (name : String) : List String → Except TokenFault Unit
  | [] => .ok ()
  | t :: ts =>
    match Placeholder.ofName? t with
    | none => .error (.unknown ("fixture " ++ name) t)
    | some p => if p.isCompileTime then .error (.nested name t) else checkTokens name ts

/-- Replaces one text after checking it. -/
def set (f : Fixtures) (p : Placeholder) (text : String) : Except TokenFault Fixtures := do
  if p.phase ≠ .fixture then throw (.unknown "fixture table" p.name)
  checkTokens p.name (tokens text)
  pure (f.update p text)

end Fixtures

/-! ## Files of fixed texts -/

/-- Why a file does not give a table. -/
inductive FixtureFault
  /-- The file could not be read, for the reason given. -/
  | unreadable (path : String) (fault : Files.ReadFault)
  /-- The file holds no table of texts. -/
  | malformed (path : String)
  | unknownFixture (path key : String)
  | notFixture (path key : String)
  | badText (fault : TokenFault)
deriving DecidableEq

/-- The wording of a fault. -/
def FixtureFault.message : FixtureFault → String
  | unreadable path fault => "fixture file " ++ path ++ ": " ++ fault.message
  | malformed path => "fixture file " ++ path ++ ": malformed"
  | unknownFixture path key => "fixture file " ++ path ++ ": unknown fixture `" ++ key ++ "`"
  | notFixture path key => "fixture file " ++ path ++ ": `" ++ key ++ "` is not a fixture placeholder"
  | badText fault => fault.message

open Document Document.Decode in
/-- The contents of a file of fixed texts. -/
def fixtureFile : Decoder (List (String × String)) :=
  record "fixtures" [defaulted "fixtures" textMap fun _ v => v] []

/-- Replaces the text of one key. -/
def Fixtures.override (path : String) (f : Fixtures) (entry : String × String) :
    Except FixtureFault Fixtures := do
  let (key, text) := entry
  match Placeholder.ofName? key with
  | none => throw (.unknownFixture path key)
  | some p =>
    if p.phase ≠ .fixture then throw (.notFixture path key)
    (checkTokens key (tokens text)).mapError .badText
    pure (f.update p text)

/-- The built-in table with the texts of a file, whose keys are taken in their order. -/
def Fixtures.ofFile (path : String) (text : Except Files.ReadFault String) :
    Except FixtureFault Fixtures := do
  let text ← text.mapError (.unreadable path)
  match Document.TomlText.read? text with
  | none => throw (.malformed path)
  | some n =>
    let entries ← (fixtureFile .table Document.maxDepth n).mapError fun _ => .malformed path
    let sorted := entries.mergeSort fun a b => decide (a.1 ≤ b.1)
    sorted.foldlM (Fixtures.override path) builtIn

end AgentCompiler.Prompt
