/-!
# Files as a run sees them

A run reads and writes files through a `Host`, so what it does can be followed without a disk. It comes to
the disk in five ways only.
-/

namespace AgentCompiler.Files

/-- Why a file could not be read. -/
inductive ReadFault
  | missing
  | directory
  /-- Something on the way to the file is no directory. -/
  | blocked
  /-- The bytes are not the UTF-8 form of any text. -/
  | notText
  | other (reason : String)
deriving DecidableEq

/-- The wording of a fault. -/
def ReadFault.message : ReadFault → String
  | missing => "No such file or directory (os error 2)"
  | directory => "Is a directory (os error 21)"
  | blocked => "Not a directory (os error 20)"
  | notText => "stream did not contain valid UTF-8"
  | other reason => reason

/-- Access to files, inside a monad. -/
structure Host (m : Type → Type) where
  /-- Whether a path leads to anything. -/
  isThere : (path : String) → m Bool
  /-- The text of a file. -/
  read : (path : String) → m (Except ReadFault String)
  /-- Makes a directory and those above it, and says whether it is there in the end. -/
  makeDirectory : (path : String) → m Bool
  /-- Replaces the text of a file, and says whether that worked. -/
  write : (path text : String) → m Bool
  /-- Opens today's file of a log in a directory to add to it, and says whether that worked. The file is made
  when it is not there. What is added is not followed. -/
  openLog : (directory log : String) → m Bool

end AgentCompiler.Files
