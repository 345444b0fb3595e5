import AgentCompiler.Tool.Advertised

/-!
# Bodies that ask for their content type

A caller is told which media type a body has by a property that it has to send back. To the body's
schema the property is added, and its name to what the schema requires; all else that the schema says
stays. Where `properties` or `required` is there with a value of another kind nothing is added to it,
and a name that is required already is required twice: `body_asks_iff`.
-/

namespace AgentCompiler

namespace Schema

/-! ## What an object schema says -/

/-- A property of an object schema. -/
def property? (schema : Members) (name : String) : Option Json :=
  ((schema.lookup "properties").bind Json.members?).bind (·.lookup name)

/-- The items of the list of required names; none when there is no such list. -/
def requiredItems (schema : Members) : List Json :=
  ((schema.lookup "required").bind Json.items?).getD []

/-- Whether an item of a list is this name. -/
def isName (name : String) (item : Json) : Bool := item.string? == some name

/-- An object schema has a property that is a text, and requires it once. -/
structure AsksFor (name : String) (schema : Members) : Prop where
  property : ∃ properties p, schema.lookup "properties" = some (.obj properties) ∧
    properties.lookup name = some p ∧ p.getString? "type" = some "string"
  required : ∃ items, schema.lookup "required" = some (.arr items) ∧ items.countP (isName name) = 1

/-- A schema says what another one says, except for one property. -/
structure SameExcept (name : String) (schema schema' : Members) : Prop where
  keyword : ∀ key, key ≠ "properties" → key ≠ "required" → schema'.lookup key = schema.lookup key
  property : ∀ other ≠ name, property? schema' other = property? schema other
  required : (requiredItems schema').filter (!isName name ·) =
    (requiredItems schema).filter (!isName name ·)

/-- A property can be added to a schema, and its name to what the schema requires. -/
structure RoomFor (name : String) (schema : Members) : Prop where
  properties : ∀ value, schema.lookup "properties" = some value → ∃ properties, value = .obj properties
  required : ∀ value, schema.lookup "required" = some value →
    ∃ items, value = .arr items ∧ items.countP (isName name) = 0

/-! ## Asking for the content type -/

/-- The members of a schema; one that is no object becomes the property `value` of one. -/
def asObject : Json → Members
  | .obj ms => ms
  | other => [("type", .str "object"), ("properties", .obj [("value", other)])]

/-- Properties with the content type. -/
def addContentType (mediaType : String) : Json → Json
  | .obj properties => .obj (Table.insert "contentType" (contentType mediaType) properties)
  | other => other

/-- Required names with the content type. -/
def requireContentType : Json → Json
  | .arr items => .arr (items ++ [.str "contentType"])
  | other => other

/-- An object schema with the content type. -/
def askContentType (mediaType : String) (schema : Members) : Members :=
  updateMember (updateMember schema "properties" (.obj []) (addContentType mediaType)) "required"
    (.arr []) requireContentType

theorem withContentType_eq (schema : Json) (mediaType : String) :
    withContentType schema mediaType = .obj (askContentType mediaType (asObject schema)) := by
  cases schema <;> rfl

theorem lookup_updateMember (ms : Members) (key k : String) (default : Json) (f : Json → Json) :
    (updateMember ms key default f).lookup k =
      if k = key then some (f ((ms.lookup key).getD default)) else ms.lookup k :=
  Table.lookup_insert key k _ ms

section

variable (mediaType : String) (schema : Members)

theorem lookup_properties_askContentType :
    (askContentType mediaType schema).lookup "properties" =
      some (addContentType mediaType ((schema.lookup "properties").getD (.obj []))) := by
  rw [askContentType, lookup_updateMember, if_neg (by decide), lookup_updateMember, if_pos rfl]

theorem lookup_required_askContentType :
    (askContentType mediaType schema).lookup "required" =
      some (requireContentType ((schema.lookup "required").getD (.arr []))) := by
  rw [askContentType, lookup_updateMember, if_pos rfl, lookup_updateMember, if_neg (by decide)]

/-- Only properties and required names are changed. -/
theorem lookup_askContentType {key : String} (hproperties : key ≠ "properties")
    (hrequired : key ≠ "required") :
    (askContentType mediaType schema).lookup key = schema.lookup key := by
  rw [askContentType, lookup_updateMember, if_neg hrequired, lookup_updateMember,
    if_neg hproperties]

/-- Every other property stays. -/
theorem property?_askContentType {name : String} (h : name ≠ "contentType") :
    property? (askContentType mediaType schema) name = property? schema name := by
  rw [property?, lookup_properties_askContentType, property?, Option.bind_some]
  cases schema.lookup "properties" with
  | none => exact (Table.lookup_insert _ _ _ []).trans (if_neg h)
  | some value =>
      cases value with
      | obj properties => exact (Table.lookup_insert _ _ _ properties).trans (if_neg h)
      | _ => rfl

/-- What is required besides the content type stays. -/
theorem requiredItems_askContentType :
    (requiredItems (askContentType mediaType schema)).filter (!isName "contentType" ·) =
      (requiredItems schema).filter (!isName "contentType" ·) := by
  have hname : [Json.str "contentType"].filter (!isName "contentType" ·) = [] := rfl
  rw [requiredItems, lookup_required_askContentType, requiredItems, Option.bind_some]
  cases schema.lookup "required" with
  | none => exact hname
  | some value =>
      cases value with
      | arr items =>
          refine (List.filter_append items [.str "contentType"]).trans ?_
          rw [hname, List.append_nil]
          rfl
      | _ => rfl

theorem sameExcept_askContentType :
    SameExcept "contentType" schema (askContentType mediaType schema) where
  keyword _ := lookup_askContentType mediaType schema
  property _ := property?_askContentType mediaType schema
  required := requiredItems_askContentType mediaType schema

/-- The content type is a property exactly when properties, where there are some, are an object. -/
theorem property_askContentType_iff :
    (∃ properties p, (askContentType mediaType schema).lookup "properties" = some (.obj properties) ∧
        properties.lookup "contentType" = some p ∧ p.getString? "type" = some "string") ↔
      ∀ value, schema.lookup "properties" = some value → ∃ properties, value = .obj properties := by
  rw [lookup_properties_askContentType]
  have hasked (properties : Members) :
      ∃ properties' p, some (addContentType mediaType (.obj properties)) = some (.obj properties') ∧
        properties'.lookup "contentType" = some p ∧ p.getString? "type" = some "string" :=
    ⟨_, contentType mediaType, rfl, (Table.lookup_insert _ _ _ _).trans (if_pos rfl), rfl⟩
  cases schema.lookup "properties" with
  | none => exact iff_of_true (hasked []) fun value h => by cases h
  | some value =>
      cases value with
      | obj properties => exact iff_of_true (hasked properties) fun value h => by cases h; exact ⟨_, rfl⟩
      | _ =>
          refine iff_of_false ?_ fun h => ?_
          · rintro ⟨properties, p, h, -⟩
            cases h
          · obtain ⟨properties, hproperties⟩ := h _ rfl
            cases hproperties

/-- The content type is required once exactly when required names, where there are some, are an array
without it. -/
theorem required_askContentType_iff :
    (∃ items, (askContentType mediaType schema).lookup "required" = some (.arr items) ∧
        items.countP (isName "contentType") = 1) ↔
      ∀ value, schema.lookup "required" = some value →
        ∃ items, value = .arr items ∧ items.countP (isName "contentType") = 0 := by
  rw [lookup_required_askContentType]
  cases schema.lookup "required" with
  | none => exact iff_of_true ⟨_, rfl, rfl⟩ fun value h => by cases h
  | some value =>
      cases value with
      | arr items =>
          have hcount : (items ++ [Json.str "contentType"]).countP (isName "contentType") =
              items.countP (isName "contentType") + 1 := List.countP_append
          constructor
          · rintro ⟨items', heq, hitems'⟩ value hvalue
            cases heq
            cases hvalue
            exact ⟨items, rfl, by omega⟩
          · intro h
            obtain ⟨items', heq, hitems'⟩ := h _ rfl
            cases heq
            exact ⟨_, rfl, by omega⟩
      | _ =>
          refine iff_of_false ?_ fun h => ?_
          · rintro ⟨items, h, -⟩
            cases h
          · obtain ⟨items, hitems, -⟩ := h _ rfl
            cases hitems

theorem asksFor_askContentType_iff :
    AsksFor "contentType" (askContentType mediaType schema) ↔ RoomFor "contentType" schema := by
  constructor
  · exact fun h => ⟨(property_askContentType_iff mediaType schema).mp h.property,
      (required_askContentType_iff mediaType schema).mp h.required⟩
  · exact fun h => ⟨(property_askContentType_iff mediaType schema).mpr h.properties,
      (required_askContentType_iff mediaType schema).mpr h.required⟩

end

end Schema

namespace Tool

open Schema

/-! ## Advertised bodies -/

/-- The schema that is advertised for the body of an operation. -/
def advertisedBody? (components : Members) (o : Api.Operation) : Option Json :=
  ((requestSchema components o).getMembers? "properties").bind (·.lookup "requestBody")

/-- A body is advertised with the schema of its first media type. -/
theorem advertisedBody?_eq {components : Members} {o : Api.Operation} {media : Api.MediaSchema}
    {rest : List Api.MediaSchema} (h : o.requestBody = media :: rest) :
    advertisedBody? components o =
      some (withContentType (inline components media.schema) media.mediaType) := by
  rw [advertisedBody?, requestSchema, h]
  cases o.parameters <;> rfl

/-- Whatever the schema of a body is, what is advertised is an object schema that says the same about
everything but the content type. It asks for the content type, once, exactly when the schema, after
conversion, has room for it. -/
theorem body_asks_iff {components : Members} {o : Api.Operation} {media : Api.MediaSchema}
    {rest : List Api.MediaSchema} (h : o.requestBody = media :: rest) :
    ∃ body, advertisedBody? components o = some (.obj body) ∧
      SameExcept "contentType" (asObject (inline components media.schema)) body ∧
      (AsksFor "contentType" body ↔
        RoomFor "contentType" (asObject (inline components media.schema))) := by
  refine ⟨_, ?_, sameExcept_askContentType media.mediaType _,
    asksFor_askContentType_iff media.mediaType _⟩
  rw [advertisedBody?_eq h, withContentType_eq]

/-! ## Letters -/

/-- A text property that is required. -/
def letterSchema (name : String) : Json :=
  objectSchema [(name, Api.tagSchema "string")] [name]

/-- An interface to send letters, which have their schema among the components. -/
def letterInterface (name : String) : Json :=
  .obj [("paths", .obj [("/letters", .obj [("post", .obj [("requestBody", .obj [("content", .obj
      [("text/plain", .obj [("schema", .obj [("$ref", .str "#/components/schemas/Letter")])])])])])])]),
    ("components", .obj [("schemas", .obj [("Letter", letterSchema name)])])]

def sendLetter : Api.Operation where
  path := "/letters"
  method := "post"
  requestBody := [⟨"text/plain", .obj [("$ref", .str "#/components/schemas/Letter")]⟩]

theorem operations_letterInterface (name : String) :
    Api.operations (letterInterface name) = [sendLetter] := rfl

/-- A letter with a text asks for its content type as well. -/
theorem body_asks_letter :
    sendLetter ∈ Api.operations (letterInterface "text") ∧
      ∃ body, advertisedBody? (components (letterInterface "text")) sendLetter = some (.obj body) ∧
        AsksFor "contentType" body ∧ property? body "text" = some (Api.tagSchema "string") := by
  obtain ⟨body, hbody, hsame, hasks⟩ :=
    @body_asks_iff (components (letterInterface "text")) sendLetter _ _ rfl
  have hroom : RoomFor "contentType" (asObject (letterSchema "text")) :=
    ⟨fun value h => by cases h; exact ⟨_, rfl⟩, fun value h => by cases h; exact ⟨_, rfl, rfl⟩⟩
  refine ⟨?_, body, hbody, hasks.mpr hroom, ?_⟩
  · rw [operations_letterInterface]
    exact List.mem_cons_self
  · rw [hsame.property "text" (by decide)]
    rfl

/-- A letter that has to have a `contentType` of its own requires it twice. -/
theorem body_asks_twice :
    sendLetter ∈ Api.operations (letterInterface "contentType") ∧
      ∃ body, advertisedBody? (components (letterInterface "contentType")) sendLetter =
          some (.obj body) ∧
        body.lookup "required" = some (.arr [.str "contentType", .str "contentType"]) ∧
        ¬ AsksFor "contentType" body := by
  refine ⟨?_, _, rfl, rfl, fun h => ?_⟩
  · rw [operations_letterInterface]
    exact List.mem_cons_self
  · obtain ⟨items, heq, hitems⟩ := h.required
    cases heq
    exact absurd hitems (by decide)

end Tool

end AgentCompiler
