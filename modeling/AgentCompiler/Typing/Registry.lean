import AgentCompiler.Typing.Declaration

/-!
# The declarations of a module

A registry keeps declarations in the order in which they were added. The first declaration of a name
stays, and a later one under the same name is not added.
-/

namespace AgentCompiler

/-- The declarations of one module. -/
structure Registry where
  declarations : List Declaration := []

namespace Registry

/-- The declaration of a name. -/
def find? (r : Registry) (name : String) : Option Declaration :=
  r.declarations.find? fun d => d.name = name

/-- Whether a name is declared. -/
def contains (r : Registry) (name : String) : Bool :=
  r.declarations.any fun d => d.name = name

/-- Adds a declaration unless its name is taken. -/
def register (r : Registry) (d : Declaration) : Registry :=
  if r.contains d.name then r else ⟨r.declarations ++ [d]⟩

end Registry

end AgentCompiler
