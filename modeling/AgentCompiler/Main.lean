import AgentCompiler.Command.Run
import AgentCompiler.Files.Day

/-!
# The executable

Reads arguments, environment and files, and leaves all decisions to `Command.run`.
-/

namespace AgentCompiler.Main

open Files

/-- The environment variables that the command looks at. -/
def variableNames : List String :=
  ["HOME", "AGENTPORT_HOME", "AGENTPORT_DEFINITION", "AGENTPORT_OUTPUT_DIR", "AGENTPORT_PROFILE",
    "AGENTPORT_GATEWAY", "AGENTPORT_MODEL_MAP_FILE", "AGENTPORT_FIXTURES_FILE", "LOG_TO_FILE",
    "LOG_DIR"]

/-- The environment of the process. -/
def environment : IO Command.Environment := do
  let values ← variableNames.filterMapM fun name => do
    return (← IO.getEnv name).map (name, ·)
  return ⟨values, toString (← IO.currentDir)⟩

/-- Why the system could not read a file. -/
def readFault : IO.Error → ReadFault
  | .noFileOrDirectory _ _ _ => .missing
  | .inappropriateType _ code _ => if code = 20 then .blocked else .directory
  | e => .other (toString e)

/-- The text of a file on the disk. -/
def readText (path : String) : IO (Except ReadFault String) := do
  try
    match String.fromUTF8? (← IO.FS.readBinFile path) with
    | some text => return .ok text
    | none => return .error .notText
  catch e => return .error (readFault e)

/-- Whether an action goes through. -/
def succeeds (action : IO Unit) : IO Bool := do
  try
    action
    return true
  catch _ => return false

/-- Whether anything is at a path on the disk. What cannot be read is there as well. -/
def isThere (path : String) : IO Bool := do
  match ← readText path with
  | .error .missing | .error .blocked => return false
  | _ => return true

/-- Today, by the clock of the file system: the day on which a new file is made. -/
def today : IO Day := do
  let (_, path) ← IO.FS.createTempFile
  let made ← path.metadata
  IO.FS.removeFile path
  return .ofCount (made.modified.sec.toNat / 86400)

/-- Access to the disk. -/
def disk : Host IO where
  isThere := isThere
  read := readText
  makeDirectory path := succeeds (if path.isEmpty then pure () else IO.FS.createDirAll path)
  write path text := succeeds (IO.FS.writeFile path text)
  openLog directory log := do
    let path := Path.join directory ((← today).fileName log)
    succeeds (discard (IO.FS.Handle.mk path .append))

end AgentCompiler.Main

open AgentCompiler in
/-- Compiles the definition that the arguments or the environment name. -/
def main (arguments : List String) : IO UInt32 := do
  match ← (Command.run Main.disk (← Main.environment) arguments).run with
  | .ok paths =>
    for path in paths do
      IO.println path
    return 0
  | .error fault =>
    IO.eprintln fault.report
    return fault.exitStatus
