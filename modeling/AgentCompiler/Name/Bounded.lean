import AgentCompiler.Digest.Sha256
import AgentCompiler.Name.Identifier

/-!
# Names of bounded length

A name that is too long is cut and marked with six hexadecimal digits of its digest, so that two long
names with the same beginning stay apart.
-/

namespace AgentCompiler.Name

/-- The most characters of a name of a tool, a type or a dispatch key. -/
def maxLength : Nat := 64

/-- The most characters kept of a tool's name that stands in no namespace. -/
def toolBudget : Nat := 50

/-- The first six hexadecimal digits of a name's digest. -/
def digest (name : String) : String := .ofList ((Digest.Sha256.hex name).toList.take 6)

/-- A name of at most `budget` characters stays; of a longer one the first `budget` characters are
kept, and its digest follows. -/
def prune (name : String) (budget : Nat) : String :=
  if name.length ≤ budget then name
  else .ofList (name.toList.take budget) ++ "_" ++ digest name

/-- A name cut so that it has at most `max` characters with its digest. A limit that leaves no room
for anything but the digest is no limit. -/
def bound (name : String) (max : Nat) : String :=
  if name.length ≤ max ∨ max ≤ 7 then name else prune name (max - 7)

/-- The name of a class that stands for a free text. -/
def pascal (s : String) : String := bound (.ofList (camel s.toList)) maxLength

end AgentCompiler.Name
