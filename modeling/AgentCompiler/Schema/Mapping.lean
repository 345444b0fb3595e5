import AgentCompiler.Api.Parameter
import AgentCompiler.Name.Bounded
import AgentCompiler.Schema.Component
import AgentCompiler.Typing.Registry

/-!
# Types of schemas

A schema is mapped to a type, and the records it needs are registered before the record that uses them,
so that a registry is always a valid order of definition. While a component is being mapped, a reference
to it is untyped.

A component may refer to itself through `allOf`, where nothing stops the mapping: its parts are merged
without being mapped. So the mapping is a least fixed point of one step, and has no result where it
does not end.
-/

namespace AgentCompiler.Schema

/-- A step that reads and extends the registry; no result when it does not end. -/
abbrev Mapping (α : Type) := StateT Registry Option α

/-- Where a schema stands. -/
inductive Position
  /-- At the top of a declaration: an object becomes a record, with or without properties. -/
  | root
  /-- Inside a field: an object without properties is a mapping. -/
  | field
deriving DecidableEq

/-- What references may lead to. -/
structure Scope where
  /-- The named schemas. -/
  components : Members
  /-- The classes of the components that are being mapped. -/
  pending : List String := []

/-- The type tag of a schema. Of several tags the first one that is not `null` counts. -/
def typeTag (node : Members) : Option String :=
  match node.lookup "type" with
  | some (.str tag) => some tag
  | some (.arr tags) => (tags.filterMap Json.string?).find? (· ≠ "null")
  | _ => none

/-- The names that a schema requires. -/
def requiredNames (node : Members) : List String :=
  (((node.lookup "required").bind Json.items?).getD []).filterMap Json.string?

/-- The properties of a schema. -/
def properties (schema : Json) : Members := (schema.getMembers? "properties").getD []

/-! ## Merging -/

/-- The schema that a part of `allOf` stands for: the component it refers to, or the part itself. -/
def part (components : Members) (schema : Json) : Json :=
  match schema.getString? "$ref" with
  | some reference => (components.lookup (segment reference)).getD schema
  | none => schema

/-- Adds the members whose keys are not there yet. -/
def addMissing (ms more : Members) : Members :=
  more.foldl (fun acc (k, v) => if (acc.lookup k).isSome then acc else acc ++ [(k, v)]) ms

/-- Adds the values that are not there yet. -/
def addDistinct (xs more : List Json) : List Json :=
  more.foldl (fun acc x => if acc.any (Json.same x) then acc else acc ++ [x]) xs

/-- The properties of the parts of `allOf`. The first part that has a property decides its schema. -/
def mergedProperties (components : Members) (parts : List Json) : Members :=
  (parts.map (part components)).foldl (fun acc p => addMissing acc (properties p)) []

/-- What the parts of `allOf` require. -/
def mergedRequired (components : Members) (parts : List Json) : List Json :=
  (parts.map (part components)).foldl
    (fun acc p => addDistinct acc ((p.getItems? "required").getD [])) []

/-- The parts of `allOf` as one object schema, with the description of the whole. -/
def merge (components : Members) (node : Members) (parts : List Json) : Members :=
  ("type", .str "object") ::
    ((node.lookup "description").map fun d => ("description", d)).toList ++
    [("properties", .obj (mergedProperties components parts)),
      ("required", .arr (mergedRequired components parts))]

/-! ## Mapping -/

/-- Adds a declaration, and refers to it. -/
def declare (d : Declaration) : Mapping TypeExpr := do
  modify (·.register d)
  pure (.named d.name)

/-- A choice of types: the types of the branches, each once, and a choice of one is that one. -/
def mapUnion (hint : Json → String → Mapping TypeExpr) (branches : List Json) (name : String) :
    Mapping TypeExpr := do
  let types ← branches.zipIdx.mapM fun (branch, i) =>
    hint branch (name ++ "_option" ++ Decimal.natural (i + 1))
  match types.foldl (fun acc t => if acc.contains t then acc else acc ++ [t]) [] with
  | [] => pure .any
  | [t] => pure t
  | ts => pure (.union ts)

/-- A record for an object, unless its name is declared. A record for a body starts with a field that
holds the media type. -/
def mapObject (hint : Json → String → Mapping TypeExpr) (node : Members) (name : String)
    (mediaType : Option String) : Mapping TypeExpr := do
  let class_ := Name.pascal name
  if (← get).contains class_ then return .named class_
  let required := requiredNames node
  let first := mediaType.map fun m =>
    Field.ofProperty "content_type_annotation" (.literal m) true none
  let fields ← (properties (.obj node)).mapM fun (property, schema) => do
    let type ← hint schema (name ++ "_" ++ property)
    pure (Field.ofProperty property type (required.contains property)
      (schema.getString? "description"))
  declare (.record class_ ((node.lookup "description").bind Json.string?)
    (first.toList ++ fields))

/-- How a schema is mapped, given what references may lead to, the name of a declaration for it, where
it stands and the media type of a body. -/
abbrev Mapper :=
  Scope → Json → (name : String) → Position → (mediaType : Option String) → Mapping TypeExpr

/-- The branches of a choice. -/
def branches? (node : Members) : Option (List Json) :=
  (node.lookup "anyOf").bind Json.items? <|> (node.lookup "oneOf").bind Json.items?

/-- The parts of a merged schema. -/
def parts? (node : Members) : Option (List Json) := (node.lookup "allOf").bind Json.items?

/-- Maps a reference: to its class, to no type while that is being mapped or when the reference leads
nowhere, and else to the type of its component. -/
def mapReference (map : Mapper) (scope : Scope) (reference : String) : Mapping TypeExpr := do
  let key := segment reference
  let class_ := Name.pascal key
  if (← get).contains class_ then return .named class_
  if scope.pending.contains class_ then return .any
  match scope.components.lookup key with
  | none => return .any
  | some target => map { scope with pending := class_ :: scope.pending } target key .root none

/-- A list for an array, of anything when its items have no schema. -/
def mapItems (hint : Json → String → Mapping TypeExpr) (items : Option Json) (name : String) :
    Mapping TypeExpr :=
  match items with
  | some items => do pure (.list (← hint items (name ++ "_item")))
  | none => pure (.list .any)

/-- Maps a schema without references, choices and parts: by its type tag. -/
def mapTagged (hint : Json → String → Mapping TypeExpr) (node : Members) (name : String)
    (position : Position) (mediaType : Option String) : Mapping TypeExpr :=
  let record := (node.lookup "properties").isSome || position == .root
  match typeTag node with
  | none => if record then mapObject hint node name mediaType else pure .any
  | some "object" => if record then mapObject hint node name mediaType else pure .map
  | some "array" => mapItems hint (node.lookup "items") name
  | some tag => pure (.ofTag tag)

/-- Maps a schema, where `map` maps the schemas that it leads to. -/
def mapStep (map : Mapper) : Mapper
  | scope, .obj node, name, position, mediaType =>
    let hint (schema : Json) (name : String) := map scope schema name .field none
    match reference? node, branches? node, parts? node with
    | some reference, _, _ => mapReference map scope reference
    | none, some branches, _ => mapUnion hint branches name
    | none, none, some parts =>
      map scope (.obj (merge scope.components node parts)) name position mediaType
    | none, none, none => mapTagged hint node name position mediaType
  | _, _, _, _, _ => pure .any

/-! ## The fixed point

A step has more results when the mapping of what a schema leads to has more, so the step has a least
fixed point.
-/

/-- Every result of one step is a result of the other. -/
def Below {α : Type} (m m' : Mapping α) : Prop := ∀ r x, m r = some x → m' r = some x

namespace Below

variable {α β : Type}

theorem refl (m : Mapping α) : Below m m := fun _ _ h => h

theorem bind {m m' : Mapping α} {f f' : α → Mapping β} (hm : Below m m')
    (hf : ∀ a, Below (f a) (f' a)) : Below (m >>= f) (m' >>= f') := by
  intro r x h
  obtain ⟨⟨a, r'⟩, ha, hx⟩ := Option.bind_eq_some_iff.mp h
  exact Option.bind_eq_some_iff.mpr ⟨(a, r'), hm _ _ ha, hf _ _ _ hx⟩

theorem mapM {f f' : α → Mapping β} (hf : ∀ a, Below (f a) (f' a)) (as : List α) :
    Below (as.mapM f) (as.mapM f') := by
  induction as with
  | nil => exact refl _
  | cons a as ih =>
      simp only [List.mapM_cons]
      exact (hf a).bind fun _ => ih.bind fun _ => refl _

end Below

section

variable {map map' : Mapper}
  (h : ∀ scope schema name position mediaType,
    Below (map scope schema name position mediaType) (map' scope schema name position mediaType))
include h

theorem mapReference_below (scope : Scope) (reference : String) :
    Below (mapReference map scope reference) (mapReference map' scope reference) := by
  refine (Below.refl _).bind fun r => ?_
  split
  · exact .refl _
  split
  · exact .refl _
  split
  · exact .refl _
  · exact h _ _ _ _ _

theorem mapTagged_below (scope : Scope) (node : Members) (name : String) (position : Position)
    (mediaType : Option String) :
    Below (mapTagged (map scope · · .field none) node name position mediaType)
      (mapTagged (map' scope · · .field none) node name position mediaType) := by
  have hobject : Below (mapObject (map scope · · .field none) node name mediaType)
      (mapObject (map' scope · · .field none) node name mediaType) := by
    refine (Below.refl _).bind fun r => ?_
    split
    · exact .refl _
    · refine (Below.mapM (fun e => ?_) _).bind fun _ => .refl _
      exact (h _ _ _ _ _).bind fun _ => .refl _
  have hitems (items : Option Json) : Below (mapItems (map scope · · .field none) items name)
      (mapItems (map' scope · · .field none) items name) := by
    cases items with
    | none => exact .refl _
    | some items => exact (h _ _ _ _ _).bind fun _ => .refl _
  simp only [mapTagged]
  split
  · split
    · exact hobject
    · exact .refl _
  · split
    · exact hobject
    · exact .refl _
  · exact hitems _
  · exact .refl _

/-- A step has every result that it has with a mapper of fewer results. -/
theorem mapStep_below (scope : Scope) (schema : Json) (name : String) (position : Position)
    (mediaType : Option String) :
    Below (mapStep map scope schema name position mediaType)
      (mapStep map' scope schema name position mediaType) := by
  cases schema with
  | obj node =>
      simp only [mapStep]
      split
      · exact mapReference_below h _ _
      · exact (Below.mapM (fun _ => h _ _ _ _ _) _).bind fun _ => .refl _
      · exact h _ _ _ _ _
      · exact mapTagged_below h _ _ _ _ _
  | null | bool _ | num _ | str _ | arr _ => exact .refl _

end

/-- Maps a schema, for which `name` is the name of a declaration. It is the least fixed point of
`mapStep`. -/
def Scope.mapNode (scope : Scope) (schema : Json) (name : String) (position : Position)
    (mediaType : Option String) (registry : Registry) : Option (TypeExpr × Registry) :=
  mapStep (fun scope schema name position mediaType =>
    scope |>.mapNode schema name position mediaType) scope schema name position mediaType registry
partial_fixpoint monotonicity by
  intro map map' h scope schema name position mediaType r
  have hbelow : Below (mapStep map scope schema name position mediaType)
      (mapStep map' scope schema name position mediaType) := by
    refine mapStep_below (fun scope schema name position mediaType r x hx => ?_) _ _ _ _ _
    have hrel := h scope schema name position mediaType r
    rw [hx] at hrel
    generalize map' scope schema name position mediaType r = y at hrel
    cases hrel
    rfl
  dsimp only
  cases hr : mapStep map scope schema name position mediaType r with
  | none => exact .bot
  | some x =>
      rw [hbelow r x hr]
      exact .refl

/-- The mapping as far as its steps nest less than `limit` deep. -/
def mapWithin : (limit : Nat) → Mapper
  | 0 => fun _ _ _ _ _ => failure
  | limit + 1 => mapStep (mapWithin limit)

/-- What is found within a limit is the result. -/
theorem mapWithin_below (limit : Nat) (scope : Scope) (schema : Json) (name : String)
    (position : Position) (mediaType : Option String) :
    Below (mapWithin limit scope schema name position mediaType)
      (scope.mapNode schema name position mediaType) := by
  induction limit generalizing scope schema name position mediaType with
  | zero =>
      intro r x hx
      cases hx
  | succ limit ih =>
      intro r x hx
      rw [Scope.mapNode]
      exact mapStep_below ih _ _ _ _ _ _ _ hx

/-- Maps a schema that has a declaration of its own. -/
def mapRoot (components : Members) (schema : Json) (name : String) : Mapping TypeExpr :=
  Scope.mapNode ⟨components, []⟩ schema name .root none

/-- Maps the schema of a field. -/
def mapField (components : Members) (schema : Json) (name : String) : Mapping TypeExpr :=
  Scope.mapNode ⟨components, []⟩ schema name .field none

/-- One record that holds every parameter; none without parameters. A parameter without a schema has the
one of its first media type, and else is a text. -/
def mapParameters (components : Members) (ps : List Api.Parameter) (name : String) :
    Mapping (Option TypeExpr) := do
  if ps.isEmpty then return none
  let class_ := Name.pascal name
  if (← get).contains class_ then return some (.named class_)
  let fields ← ps.mapM fun p => do
    let nested := name ++ "_" ++ p.name
    let type ← match p.schema, p.content.head? with
      | some schema, _ => mapField components schema nested
      | none, some media => mapField components media.schema nested
      | none, none => pure .text
    pure (Field.ofProperty p.name type p.required (some p.description))
  some <$> declare (.record class_ none fields)

/-- Each media type of a body as a record; several ones are joined under the name of a union. A body
that is no record stays untyped. -/
def mapContent (components : Members) (content : List Api.MediaSchema) (tool : String) :
    Mapping (Option TypeExpr) := do
  let types ← content.mapM fun media =>
    Scope.mapNode ⟨components, []⟩ media.schema (tool ++ "_" ++ Name.snake media.mediaType)
      .root (some media.mediaType)
  let records := types.filter fun
    | .named _ => true
    | _ => false
  match records.foldl (fun acc t => if acc.contains t then acc else acc ++ [t]) [] with
  | [] => pure none
  | [t] => pure (some t)
  | ts => some <$> declare (.union (Name.pascal (tool ++ "_Request_Body")) ts)

/-- Parameters and body in one record when there are both. Each comes with whether it is required. -/
def compose (tool : String) (parameters body : Option (TypeExpr × Bool)) :
    Mapping (Option TypeExpr) :=
  match parameters, body with
  | some (ps, psRequired), some (b, bRequired) =>
    some <$> declare (.record (Name.pascal (tool ++ "_Input")) none
      [.ofProperty "parameters" ps psRequired
        (some "Parameters (ie. for a GET method) for this API Call"),
      .ofProperty "request_body" b bRequired
        (some "Request body (ie. for a POST method) for this API Call")])
  | some (ps, _), none => pure (some ps)
  | none, some (b, _) => pure (some b)
  | none, none => pure none

end AgentCompiler.Schema
