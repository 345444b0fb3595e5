import AgentCompiler.Agent.Reading
import AgentCompiler.Document.JsonText
import AgentCompiler.Document.YamlText
import AgentCompiler.Files.Path

/-!
# Files of agent definitions

The extension of a file tells whether a definition is written as JSON or as YAML.
-/

namespace AgentCompiler.Reading

/-- Why a file does not give a definition. -/
inductive FileFault
  | unreadable (path : String)
  | badJson (path : String) (fault : Document.Fault)
  | badYaml (path : String)
  | unknownFormat (path : String)
deriving DecidableEq

/-- The wording of a fault. -/
def FileFault.message : FileFault → String
  | unreadable path => "reading definition " ++ path
  | badJson path _ => "parsing JSON definition " ++ path
  | badYaml path => "parsing YAML definition " ++ path
  | unknownFormat path =>
    "unsupported definition format " ++ path ++ " (expected .json, .yaml or .yml)"

/-- Whether a path is that of a JSON file. -/
def isJsonFile (path : String) : Bool := Path.hasExtension path ["json"]

/-- Whether a path is that of a YAML file. -/
def isYamlFile (path : String) : Bool := Path.hasExtension path ["yaml", "yml"]

/-- The definition in a file, given its text unless it could not be read. -/
def definitionOfFile (path : String) (text : Option String) : Except FileFault Definition :=
  match text with
  | none => .error (.unreadable path)
  | some text =>
    if isJsonFile path then
      (definitionOfDocument (Document.JsonText.read text.toList)).mapError (.badJson path)
    else if isYamlFile path then
      (definitionOfDocument (Document.YamlText.read text.toList)).mapError fun _ => .badYaml path
    else .error (.unknownFormat path)

end AgentCompiler.Reading
