import AgentCompiler.Json.Pointer

/-!
# Components of an interface document

A schema refers to a component by a path whose last segment is the component's name.
-/

namespace AgentCompiler.Schema

/-- The named schemas of a document. -/
def components (document : Json) : Members :=
  ((document.pointer? "/components/schemas").bind Json.members?).getD []

/-- The last segment of a reference. -/
def segment (reference : String) : String :=
  .ofList (((reference.toList.splitOn '/').getLast?).getD [])

/-- The reference that a schema is made of. -/
def reference? (node : Members) : Option String := (node.lookup "$ref").bind Json.string?

end AgentCompiler.Schema
