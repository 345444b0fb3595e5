import AgentCompiler.Document.Decode
import AgentCompiler.Document.TomlText
import AgentCompiler.Files.Host
import AgentCompiler.Files.Path

/-!
# The settings file

A user may keep settings in a file in the command's own directory.
-/

namespace AgentCompiler.Command

/-- Settings about what the command logs. -/
structure LogSettings where
  toFile : Option Bool := none
  directory : Option String := none
  json : Option Bool := none
  compact : Option Bool := none
  pretty : Option Bool := none
  level : Option String := none
deriving DecidableEq

/-- Settings about what the command does. -/
structure TaskSettings where
  definition : Option String := none
  outputDirectory : Option String := none
  profile : Option String := none
  gateway : Option Bool := none
  catalogFile : Option String := none
  fixturesFile : Option String := none
deriving DecidableEq

/-- The settings of a user. -/
structure UserSettings where
  logging : Option LogSettings := none
  task : Option TaskSettings := none
deriving DecidableEq

/-- Why the settings could not be taken from their file. -/
inductive SettingsFault
  | unreadable (path : String)
  | malformed (path : String)
deriving DecidableEq

/-- The wording of a fault. -/
def SettingsFault.message : SettingsFault → String
  | unreadable path => "reading " ++ path
  | malformed path => "parsing " ++ path

open Document Document.Decode in
/-- Settings about what the command logs. -/
def logSettings : Decoder LogSettings :=
  record "settings of the log"
    [positional "to_file" (optional bool) fun s v => { s with toFile := v },
      positional "dir" (optional text) fun s v => { s with directory := v },
      positional "json" (optional bool) fun s v => { s with json := v },
      positional "compact" (optional bool) fun s v => { s with compact := v },
      positional "pretty" (optional bool) fun s v => { s with pretty := v },
      positional "level" (optional text) fun s v => { s with level := v }]
    {}

open Document Document.Decode in
/-- Settings about what the command does. -/
def taskSettings : Decoder TaskSettings :=
  record "settings of the task"
    [positional "definition" (optional text) fun s v => { s with definition := v },
      positional "output_dir" (optional text) fun s v => { s with outputDirectory := v },
      positional "profile" (optional text) fun s v => { s with profile := v },
      positional "gateway" (optional bool) fun s v => { s with gateway := v },
      positional "model_map_file" (optional text) fun s v => { s with catalogFile := v },
      positional "fixtures_file" (optional text) fun s v => { s with fixturesFile := v }]
    {}

open Document Document.Decode in
/-- The settings of a user. -/
def userSettings : Decoder UserSettings :=
  record "settings"
    [positional "logging" (optional logSettings) fun s v => { s with logging := v },
      positional "translate" (optional taskSettings) fun s v => { s with task := v }]
    {}

namespace UserSettings

/-- The settings in a text. -/
def ofText? (text : String) : Option UserSettings := do
  let n ← Document.TomlText.read? text
  (userSettings .table Document.maxDepth n).toOption

/-- The settings file in the command's own directory. -/
def filePath (directory : String) : String := Path.join directory "config.toml"

/-- Reads the settings in the command's own directory; none when there is no file. -/
def load {m : Type → Type} [Monad m] (host : Files.Host m) (directory : String) :
    ExceptT SettingsFault m (Option UserSettings) := do
  let path := filePath directory
  if !(← host.isThere path) then return none
  match ← host.read path with
  | .error _ => throw (.unreadable path)
  | .ok text =>
    match ofText? text with
    | some s => return some s
    | none => throw (.malformed path)

end UserSettings

end AgentCompiler.Command
