import AgentCompiler.Files.Day
import AgentCompiler.Files.Host
import AgentCompiler.Files.Path

/-!
# A disk as a value

A disk says what each place holds, where a place is the list of names that lead to it from the root.
`Disk.host` gives a run access to a disk that is its state, and `Disk.hostOn` keeps its logs there as well.
-/

namespace AgentCompiler.Files

/-- The names that lead to a place from the root. -/
abbrev Place := List String

/-- What a place holds. -/
inductive Kind
  | directory
  /-- A file with its text; none when its bytes are no text. -/
  | file (text : Option String)
deriving DecidableEq

/-- A disk, with the directory in which paths start. -/
structure Disk where
  entries : List (Place × Kind) := []
  start : Place := []

namespace Disk

/-- What a place holds, if it holds anything. The root is a directory. -/
def kind? (d : Disk) (p : Place) : Option Kind :=
  if p.isEmpty then some .directory else d.entries.lookup p

/-- The disk after something was put at a place. -/
def put (d : Disk) (p : Place) (k : Kind) : Disk :=
  { d with entries := (p, k) :: d.entries.filter fun e => e.1 != p }

/-- Goes from a directory along one component of a path. -/
def follow (d : Disk) (here : Place) (component : String) : Except ReadFault Place :=
  match d.kind? here with
  | none => .error .missing
  | some (.file _) => .error .blocked
  | some .directory =>
    if component.isEmpty || component == "." then .ok here
    else if component == ".." then .ok here.dropLast
    else .ok (here ++ [component])

/-- Where a path starts. -/
def origin (d : Disk) (path : String) : Place := if Path.isAbsolute path then [] else d.start

/-- The place that a path leads to, which may hold nothing yet. -/
def resolve (d : Disk) (path : String) : Except ReadFault Place :=
  if path.isEmpty then .error .missing
  else (Path.parts path).foldlM d.follow (d.origin path)

/-- Whether a path leads to anything. -/
def isThere (d : Disk) (path : String) : Bool :=
  match d.resolve path with
  | .ok p => (d.kind? p).isSome
  | .error _ => false

/-- The text of a file. -/
def read (d : Disk) (path : String) : Except ReadFault String := do
  match d.kind? (← d.resolve path) with
  | none => .error .missing
  | some .directory => .error .directory
  | some (.file none) => .error .notText
  | some (.file (some text)) => .ok text

/-- The disk after a file was written; none when that fails. -/
def write? (d : Disk) (path text : String) : Option Disk :=
  match d.resolve path with
  | .error _ => none
  | .ok p => if d.kind? p = some .directory then none else some (d.put p (.file (some text)))

/-- The disk after a file was opened to add to it, which makes one without text where nothing is; none when
that fails. -/
def open? (d : Disk) (path : String) : Option Disk :=
  match d.resolve path with
  | .error _ => none
  | .ok p =>
    match d.kind? p with
    | some .directory => none
    | some (.file _) => some d
    | none => some (d.put p (.file (some "")))

/-- Goes along the components of a path and makes the directories that are missing. What was made stays
even if a file is in the way in the end. -/
def makeAlong (d : Disk) (here : Place) : List String → Bool × Disk
  | [] => (true, d)
  | c :: cs =>
    match d.follow here c with
    | .error _ => (false, d)
    | .ok p =>
      match d.kind? p with
      | some .directory => makeAlong d p cs
      | some (.file _) => (false, d)
      | none => makeAlong (d.put p .directory) p cs

/-- Makes a directory and those above it. -/
def makeDirectory (d : Disk) (path : String) : Bool × Disk :=
  if path.isEmpty then (true, d) else d.makeAlong (d.origin path) (Path.parts path)

/-- Access to a disk that is the state. Logs are kept elsewhere. -/
def host : Host (StateM Disk) where
  isThere path := do return (← get).isThere path
  read path := do return (← get).read path
  makeDirectory path := do
    let (made, d) := (← get).makeDirectory path
    set d
    return made
  write path text := do
    match (← get).write? path text with
    | none => return false
    | some d =>
      set d
      return true
  openLog _ _ := return true

/-- Access to a disk that is the state, on a day. Logs are kept on it. -/
def hostOn (day : Day) : Host (StateM Disk) :=
  { host with
    openLog := fun directory log => do
      match (← get).open? (Path.join directory (day.fileName log)) with
      | none => return false
      | some d =>
        set d
        return true }

/-- The files below a directory, with the names that lead to them from there. -/
def filesBelow (d : Disk) (p : Place) : List (Place × Option String) :=
  d.entries.filterMap fun (q, k) =>
    match k with
    | .file text => if p.isPrefixOf q then some (q.drop p.length, text) else none
    | .directory => none

end Disk

end AgentCompiler.Files
