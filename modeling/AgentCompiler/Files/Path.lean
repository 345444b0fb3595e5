/-!
# Paths of files

A path is a sequence of components between slashes. Empty components and single points in the middle
mean nothing.
-/

namespace AgentCompiler.Path

/-- What stands between the slashes of a path. -/
def parts (path : String) : List String := (path.toList.splitOn '/').map String.ofList

/-- The components of a path that mean something. A point counts where the path starts with it. -/
def components (path : String) : List String :=
  let ps := parts path
  let kept := (ps.drop 1).filter fun p => !p.isEmpty && p != "."
  match ps.head? with
  | some first => if first.isEmpty then kept else first :: kept
  | none => kept

/-- Whether a path starts at the root of the file system. -/
def isAbsolute (path : String) : Bool := path.toList.head? = some '/'

/-- The last component of a path, unless it leads upwards or to where the path starts. -/
def fileName? (path : String) : Option String :=
  ((components path).getLast?).filter fun n => n != ".." && n != "."

/-- What follows the last point in the last component. A name whose only point is its first character
has no extension. -/
def extension? (path : String) : Option String := do
  let name ← fileName? path
  let parts := name.toList.splitOn '.'
  if parts.length ≤ 1 then none
  else if parts.length = 2 && parts.head? = some [] then none
  else parts.getLast?.map String.ofList

/-- Whether a path has one of several extensions, in upper or lower case. -/
def hasExtension (path : String) (extensions : List String) : Bool :=
  match extension? path with
  | some e => extensions.any fun x => x.toList == e.toList.map Char.toLower
  | none => false

/-- A path below another; an absolute path stands for itself. -/
def join (base path : String) : String :=
  if isAbsolute path || base.isEmpty then path
  else if base.toList.getLast? = some '/' then base ++ path
  else base ++ "/" ++ path

end AgentCompiler.Path
