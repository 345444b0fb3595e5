import AgentCompiler.Tool.Basic

/-!
# Targets of a gateway

A group with a remote function is registered as a target, with a descriptor of each of its tools.
-/

namespace AgentCompiler.Gateway

/-- What a gateway advertises of a tool. -/
structure Descriptor where
  name : String
  description : String
  /-- The schemas of the properties, which are all objects. -/
  properties : List (String × Members)
  required : List String

/-- A group as it is registered. -/
structure Target where
  /-- The name of the target, and the namespace of its keys. -/
  name : String
  group : String
  tools : List Descriptor

/-- The descriptor of a tool. -/
def Descriptor.ofTool (t : Tool) : Descriptor where
  name := t.name
  description := t.description
  properties := ((t.inputSchema.getMembers? "properties").getD []).filterMap fun (k, v) =>
    v.members?.map (k, ·)
  required := ((t.inputSchema.getItems? "required").getD []).filterMap Json.string?

/-- A descriptor as a document. What is required is left out when it is nothing. -/
def Descriptor.toJson (d : Descriptor) : Json :=
  let required :=
    if d.required.isEmpty then [] else [("required", Json.arr (d.required.map .str))]
  .obj [("name", .str d.name), ("description", .str d.description),
    ("inputSchema", .obj ([("type", .str "object"),
      ("properties", .obj (d.properties.map fun (k, ms) => (k, .obj ms)))] ++ required))]

/-- A target as a document. -/
def Target.toJson (t : Target) : Json :=
  .obj [("name", .str t.name), ("action_group", .str t.group),
    ("tools", .arr (t.tools.map (·.toJson)))]

/-- The target of a group; none without a remote function or without tools. -/
def target? (g : ToolGroup) : Option Target :=
  if g.functionRef.isSome && !g.tools.isEmpty then
    some ⟨g.space, g.name, g.tools.map .ofTool⟩
  else none

/-- The targets of all groups, in order. -/
def targets (groups : List ToolGroup) : List Target := groups.filterMap target?

end AgentCompiler.Gateway
