import AgentCompiler.Files.Path
import AgentCompiler.Text.Blank

/-!
# The environment of the command

The command takes settings from environment variables. A path that starts with `~/` starts in the user's
home directory.
-/

namespace AgentCompiler.Command

/-- What surrounds a run of the command. -/
structure Environment where
  bindings : List (String × String)
  /-- The directory in which the command runs. -/
  directory : String := "."

namespace Environment

/-- The value of a variable; empty when it is not set. -/
def value (e : Environment) (name : String) : String := (e.bindings.lookup name).getD ""

/-- Whether a variable is set, even to nothing. -/
def isSet (e : Environment) (name : String) : Bool := (e.bindings.lookup name).isSome

/-- The user's home directory. -/
def home? (e : Environment) : Option String := e.bindings.lookup "HOME"

/-- The path without the tilde that stands for the user's home directory. -/
def expand (e : Environment) (path : String) : String :=
  match path.toList, e.home? with
  | '~' :: '/' :: rest, some home => Path.join home (.ofList rest)
  | _, _ => path

/-- The directory of the command's own files: the one that is given, or one in the home directory, or
else in the directory in which the command runs. -/
def ownDirectory (e : Environment) (given : String) : String :=
  if !given.isEmpty then e.expand given
  else Path.join (e.home?.getD e.directory) ".agentport"

/-- Whether a switch is on; a switch that is not set has a default. -/
def switch (e : Environment) (name : String) (default : Bool) : Bool :=
  match e.bindings.lookup name with
  | none => default
  | some v => ["1", "true", "yes", "y", "on"].contains (.ofList ((Text.trim v).toList.map Char.toLower))

end Environment

/-- A setting: the trimmed value of an environment variable unless it is blank, and else the value of
the settings file unless that is blank. -/
def pick (given : String) (setting : Option String) : Option String :=
  if !Text.blank given then some (Text.trim given)
  else setting.filter fun v => !Text.blank v

/-- The truth value of an environment variable, which may be left blank; else the text as it is
reported. -/
def readFlag (given : String) : Except String (Option Bool) :=
  match String.ofList ((Text.trim given).toList.map Char.toLower) with
  | "" => .ok none
  | "1" | "true" | "yes" | "on" => .ok (some true)
  | "0" | "false" | "no" | "off" => .ok (some false)
  | other => .error other

/-- The wording for a text that is no truth value. -/
def badFlagMessage (found : String) : String := "invalid boolean '" ++ found ++ "'"

end AgentCompiler.Command
