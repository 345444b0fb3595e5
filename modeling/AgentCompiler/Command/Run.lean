import AgentCompiler.Agent.File
import AgentCompiler.Command.Environment
import AgentCompiler.Command.UserSettings
import AgentCompiler.Compilation.Run
import AgentCompiler.Model.CatalogFile

/-!
# The command

The command compiles the definition in a file and writes what comes out below a directory. But for the file
of a log nothing is written before the whole definition is compiled.
-/

namespace AgentCompiler.Command

/-- What ends the command. -/
inductive Fault
  | badSettings (fault : SettingsFault)
  /-- The file of the log cannot be opened. This one is not reported but breaks the command off. -/
  | noLog
  | noDefinition
  | unknownProfile (name : String)
  | badGatewayFlag (found : String)
  | badCatalog (fault : Model.CatalogFault)
  | badFixtures (fault : Prompt.FixtureFault)
  | badDefinition (fault : Reading.FileFault)
  | badRun (definition : String) (fault : RunFault)
  | unwritten (directory : String)

namespace Fault

/-- What went wrong. -/
def message : Fault → String
  | badSettings fault => fault.message
  | noLog => "initializing rolling file appender failed"
  | noDefinition => "no agent definition given: pass a path or set AGENTPORT_DEFINITION"
  | unknownProfile name => Profile.unknownMessage name
  | badGatewayFlag _ => "invalid AGENTPORT_GATEWAY"
  | badCatalog fault => fault.message
  | badFixtures _ => "loading prompt fixtures"
  | badDefinition fault => fault.message
  | badRun definition _ => "translating " ++ definition
  | unwritten directory => "writing output to " ++ directory

/-- Why it went wrong, as far as that is known. -/
def causes : Fault → List String
  | badGatewayFlag found => [badFlagMessage found]
  | badFixtures fault => [fault.message]
  | badDefinition (.badJson _ fault) => [fault.message]
  | badRun _ (.refused what reason) => [(RunFault.refused what reason).message, reason]
  | badRun _ fault => [fault.message]
  | _ => []

/-- A cause below others: further lines stand under the first one. -/
def causeText (start rest cause : String) : String :=
  String.intercalate "\n" (((cause.splitOn "\n").zipIdx).map fun (line, i) =>
    (if i = 0 then start else rest) ++ line)

/-- The number of a cause, in front of it. -/
def causeStart (i : Nat) : String :=
  let digits := Decimal.digitChars i
  .ofList (List.replicate (5 - digits.length) ' ' ++ digits ++ [':', ' '])

/-- The text of a fault. Several causes are numbered. -/
def report (f : Fault) : String :=
  let causes := match f.causes with
    | [] => []
    | [cause] => ["", "Caused by:", causeText "    " "    " cause]
    | causes => ["", "Caused by:"] ++ causes.zipIdx.map fun (cause, i) =>
        causeText (causeStart i) "       " cause
  let start := match f with
    | noLog => ""
    | _ => "Error: "
  String.intercalate "\n" ((start ++ f.message) :: causes)

/-- The exit status of the command. -/
def exitStatus : Fault → UInt32
  | noLog => 101
  | _ => 1

end Fault

variable {m : Type → Type} [Monad m]

/-- The directory for logs, when the command is asked to keep some. Environment variables win over the
settings file. -/
def logDirectory? (e : Environment) (own : String) (settings : Option LogSettings) : Option String :=
  let s := settings.getD {}
  let unlessSet {α : Type} (name : String) (setting : Option α) : Option α :=
    if e.isSet name then none else setting
  let toFile := (unlessSet "LOG_TO_FILE" s.toFile).getD (e.switch "LOG_TO_FILE" false)
  let fromVariable := some (e.value "LOG_DIR") |>.filter (!·.isEmpty)
  let directory := (unlessSet "LOG_DIR" s.directory).map e.expand <|> fromVariable
  if toFile then some (directory.getD (Path.join own "logs")) else none

/-- The name of the command's log. -/
def logName : String := "agentport.log"

/-- Opens today's file of the log, when the command is asked to keep one and its directory can be made. -/
def openLog (host : Files.Host m) (directory? : Option String) : ExceptT Fault m Unit := do
  match directory? with
  | none => return ()
  | some directory =>
    if ← (host.makeDirectory directory : m Bool) then
      if ← (host.openLog directory logName : m Bool) then return ()
      else throw .noLog
    else return ()

/-- The catalog of models, from the file that is named. -/
def loadCatalog (host : Files.Host m) (e : Environment) (path : Option String) :
    ExceptT Fault m Model.Catalog := do
  match path with
  | none => return .builtIn
  | some path =>
    let path := e.expand path
    match Model.Catalog.ofFile path (← host.read path) with
    | .ok c => return c
    | .error fault => throw (.badCatalog fault)

/-- The fixed texts, from the file that is named. -/
def loadFixtures (host : Files.Host m) (e : Environment) (path : Option String) :
    ExceptT Fault m Prompt.Fixtures := do
  match path with
  | none => return .builtIn
  | some path =>
    let path := e.expand path
    match Prompt.Fixtures.ofFile path (← host.read path) with
    | .ok f => return f
    | .error fault => throw (.badFixtures fault)

/-- The definition in a file. -/
def loadDefinition (host : Files.Host m) (path : String) : ExceptT Fault m Definition := do
  match Reading.definitionOfFile path (← host.read path).toOption with
  | .ok d => return d
  | .error fault => throw (.badDefinition fault)

/-- Writes files below a directory, in order, until one cannot be written. -/
def writeAll (host : Files.Host m) (directory : String) : List OutputFile → m Bool
  | [] => return true
  | f :: fs => do
    if ← host.write (Path.join directory f.path) f.text then writeAll host directory fs
    else return false

/-- Makes a directory and writes files below it. -/
def writeOutput (host : Files.Host m) (directory : String) (files : List OutputFile) : m Bool := do
  if ← host.makeDirectory directory then writeAll host directory files else return false

/-- What the command is asked to do. -/
structure Task where
  definition : String
  outputDirectory : String
  profile : Profile
  gateway : Option Bool
  catalogFile : Option String
  fixturesFile : Option String

/-- What the command is asked to do: an argument wins over the environment, and that over the settings
file. -/
def task (e : Environment) (arguments : List String) (s : TaskSettings) : Except Fault Task := do
  let definition ←
    match arguments.head? <|> pick (e.value "AGENTPORT_DEFINITION") s.definition with
    | some path => pure (e.expand path)
    | none => throw .noDefinition
  let output := pick (e.value "AGENTPORT_OUTPUT_DIR") s.outputDirectory
  let profile ←
    match pick (e.value "AGENTPORT_PROFILE") s.profile with
    | some name => (Profile.ofName name).mapError .unknownProfile
    | none => pure .standard
  let gateway ← (readFlag (e.value "AGENTPORT_GATEWAY")).mapError .badGatewayFlag
  return {
    definition, profile
    outputDirectory := (output.map e.expand).getD "agentport_output"
    gateway := gateway <|> s.gateway
    catalogFile := pick (e.value "AGENTPORT_MODEL_MAP_FILE") s.catalogFile
    fixturesFile := pick (e.value "AGENTPORT_FIXTURES_FILE") s.fixturesFile }

/-- Compiles the definition of a task and writes the files; returns their paths. -/
def perform (host : Files.Host m) (e : Environment) (t : Task) : ExceptT Fault m (List String) := do
  let catalog ← loadCatalog host e t.catalogFile
  let fixtures ← loadFixtures host e t.fixturesFile
  let d ← loadDefinition host t.definition
  let outcome := Compilation.run
    { profile := t.profile, fixtures, catalog, gateway := t.gateway } d
  match outcome.result with
  | .error fault => throw (.badRun t.definition fault)
  | .ok output =>
    if ← (writeOutput host t.outputDirectory output.files : m Bool) then
      return output.files.map fun f => Path.join t.outputDirectory f.path
    else throw (.unwritten t.outputDirectory)

/-- Runs the command with arguments; returns the paths of the files that were written. -/
def run (host : Files.Host m) (e : Environment) (arguments : List String) :
    ExceptT Fault m (List String) := do
  let own := e.ownDirectory (e.value "AGENTPORT_HOME")
  let settings ← (UserSettings.load host own).adapt .badSettings
  let settings := settings.getD {}
  openLog host (logDirectory? e own settings.logging)
  perform host e (← liftExcept (task e arguments (settings.task.getD {})))

end AgentCompiler.Command
