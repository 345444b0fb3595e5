import AgentCompiler.Proofs.Schema.Remapped

/-!
# What the records of a body say about its media types

The record of a media type is declared behind the media types in front and behind the properties of its
own object, and the first declaration of a class stays. So the record that stands under the class of a
media type names that media type unless a declaration without it was there first:
`body_annotated_iff`.
-/

namespace AgentCompiler.Schema

variable {components node own : Members} {tool name mediaType : String}

/-! ## Annotated records -/

/-- The required field that holds a media type and nothing else. -/
def mediaTypeField (mediaType : String) : Field where
  name := "content_type_annotation"
  aliasName := none
  type := .literal mediaType
  required := true
  description := none

/-- The first field of a record holds a media type. -/
def Annotated (mediaType : String) (d : Declaration) : Prop :=
  d.fields.head? = some (mediaTypeField mediaType)

instance (mediaType : String) (d : Declaration) : Decidable (Annotated mediaType d) :=
  inferInstanceAs (Decidable (_ = _))

/-- The record of an object for a media type is annotated with it. -/
theorem annotated_recordOf (node : Members) (name mediaType : String) (types : List TypeExpr) :
    Annotated mediaType (recordOf node name (some mediaType) types) :=
  Declaration.head?_fields_record _ _ (mediaTypeField mediaType) _

/-- A declaration in the place of which another one may stand is annotated unless that is not. -/
theorem annotated_getD {first : Option Declaration} {d : Declaration} (hd : Annotated mediaType d) :
    Annotated mediaType (first.getD d) ↔ ∀ e, first = some e → Annotated mediaType e := by
  cases first with
  | none =>
      refine ⟨fun _ e he => ?_, fun _ => hd⟩
      cases he
  | some e =>
      refine ⟨fun he e' he' => ?_, fun h => h e rfl⟩
      obtain rfl := Option.some.inj he'
      exact he

/-! ## Objects -/

/-- The object that a schema is at the top of a declaration: the one that its parts are merged to, or
the schema itself, when it has no tag or that of an object. A reference and a choice are none. -/
def ownObject? (components node : Members) : Option Members :=
  match reference? node, branches? node, parts? node with
  | none, none, some parts => some (merge components node parts)
  | none, none, none => if (typeTag node).getD "object" = "object" then some node else none
  | _, _, _ => none

/-- At the top of a declaration a schema is mapped as the object that it is. -/
theorem mapNode_ownObject (scope : Scope) (mediaType : Option String)
    (h : ownObject? scope.components node = some own) :
    Scope.mapNode scope (.obj node) name .root mediaType =
      mapObject (Scope.mapNode scope · · .field none) own name mediaType := by
  unfold ownObject? at h
  split at h
  · next href hbranches hparts =>
      cases h
      exact mapNode_parts scope name .root mediaType href hbranches hparts
  · next href hbranches hparts =>
      obtain ⟨htag, hsome⟩ := Option.ite_none_right_eq_some.mp h
      cases hsome
      funext r
      rw [Scope.mapNode, mapStep]
      simp only [href, hbranches, hparts, mapTagged, beq_self_eq_true, Bool.or_true, if_true]
      cases hnode : typeTag node with
      | none => rfl
      | some tag =>
          rw [hnode, Option.getD_some] at htag
          rw [htag]
          rfl
  · cases h

/-- An object is mapped to its class. Under that stands what was declared there when the properties had
been mapped, and else the record of the object. -/
theorem find?_mapObject {scope : Scope} {mediaType : Option String} {type : TypeExpr}
    {r r' : Registry}
    (h : mapObject (Scope.mapNode scope · · .field none) own name mediaType r = some (type, r')) :
    ∃ types r₁, (fieldSchemas (properties (.obj own)) name r).mapM (hintWith Scope.mapNode scope) r =
        some (types, r₁) ∧
      type = .named (Name.pascal name) ∧
      r'.find? (Name.pascal name) =
        some ((r₁.find? (Name.pascal name)).getD (recordOf own name mediaType types)) := by
  by_cases hold : r.contains (Name.pascal name)
  · rw [mapObject, bind_apply, get_apply, Option.bind_some] at h
    simp only [hold, if_true] at h
    cases h
    obtain ⟨e, he⟩ := Registry.contains_iff_find?.mp hold
    refine ⟨[], r, ?_, rfl, ?_⟩
    · rw [fieldSchemas, if_pos hold]
      rfl
    · rw [he, Option.getD_some]
  · rw [mapObject_apply Scope.mapNode scope own mediaType (Bool.eq_false_iff.mpr hold)] at h
    obtain ⟨⟨types, r₁⟩, htypes, hresult⟩ := Option.map_eq_some_iff.mp h
    cases hresult
    have hfind := r₁.find?_register_eq (recordOf own name mediaType types)
    rw [name_recordOf] at hfind
    exact ⟨types, r₁, htypes, rfl, hfind⟩

/-! ## Bodies -/

/-- The name for the declaration of a media type. -/
def bodyName (tool mediaType : String) : String := tool ++ "_" ++ Name.snake mediaType

/-- The class of a media type. -/
def bodyClass (tool mediaType : String) : String := Name.pascal (bodyName tool mediaType)

/-- Maps a media type of a body. -/
def bodyType (components : Members) (tool : String) (media : Api.MediaSchema) : Mapping TypeExpr :=
  Scope.mapNode ⟨components, []⟩ media.schema (bodyName tool media.mediaType) .root
    (some media.mediaType)

/-- The models of a body among the types of its media types: the declared ones, each once. -/
def models (types : List TypeExpr) : List TypeExpr :=
  (types.filter fun
    | .named _ => true
    | _ => false).foldl (fun acc t => if acc.contains t then acc else acc ++ [t]) []

/-- The type of a body that has these models. -/
def joinModels (tool : String) : List TypeExpr → Mapping (Option TypeExpr)
  | [] => pure none
  | [t] => pure (some t)
  | ts => some <$> declare (.union (Name.pascal (tool ++ "_Request_Body")) ts)

/-- Every media type is mapped, one after the other, and then the models are joined. -/
theorem mapContent_eq (components : Members) (content : List Api.MediaSchema) (tool : String) :
    mapContent components content tool =
      content.mapM (bodyType components tool) >>= fun types => joinModels tool (models types) := by
  unfold mapContent joinModels
  rfl

/-- Every type of a list is among its distinct types. -/
theorem mem_distinct_of_mem {t : TypeExpr} {acc types : List TypeExpr} (h : t ∈ acc ∨ t ∈ types) :
    t ∈ types.foldl (fun acc t => if acc.contains t then acc else acc ++ [t]) acc := by
  induction types generalizing acc with
  | nil => exact h.resolve_right List.not_mem_nil
  | cons t' types ih =>
      refine ih ?_
      dsimp only
      split
      · next hcontains =>
          rcases h with hacc | htypes
          · exact .inl hacc
          · rcases List.mem_cons.mp htypes with rfl | htypes
            · exact .inl (List.contains_iff_mem.mp hcontains)
            · exact .inr htypes
      · rwa [List.mem_append, List.mem_singleton, or_assoc, ← List.mem_cons]

/-- A declared type is among the models. -/
theorem mem_models {types : List TypeExpr} (h : .named name ∈ types) : .named name ∈ models types :=
  mem_distinct_of_mem (.inr (List.mem_filter.mpr ⟨h, rfl⟩))

theorem keeps_joinModels {I : Registry → Prop} (hI : KeptByClasses I) (tool : String)
    (ts : List TypeExpr) : Keeps I (joinModels tool ts) := by
  unfold joinModels
  split
  · exact .pure _
  · exact .pure _
  · exact (Keeps.union hI _ _).map _

/-- What is mapped before the record of a media type is declared: the media types in front, and the
properties of its object unless its class is declared by then. -/
def beforeRecord (components : Members) (tool : String) (before : List Api.MediaSchema)
    (mediaType : String) (own : Members) : Mapping (List TypeExpr) := do
  let _ ← before.mapM (bodyType components tool)
  let r ← get
  (fieldSchemas (properties (.obj own)) (bodyName tool mediaType) r).mapM
    (hintWith Scope.mapNode ⟨components, []⟩)

/-- A media type whose schema is an object has its class among the models of the body. The record that
stands under the class in the end is the first declaration of it: one that was there before, from a media
type in front or from a property of the object, and else the record of the object. Its first field is
required and holds exactly the media type, unless one without that field was there before. -/
theorem body_annotated_iff {content : List Api.MediaSchema} {body : Option TypeExpr}
    {r r' : Registry} (h : mapContent components content tool r = some (body, r')) :
    ∃ types r₀, content.mapM (bodyType components tool) r = some (types, r₀) ∧
      joinModels tool (models types) r₀ = some (body, r') ∧
      ∀ before media after node own, content = before ++ media :: after →
        media.schema = .obj node → ownObject? components node = some own →
        ∃ fieldTypes r₁ d,
          beforeRecord components tool before media.mediaType own r = some (fieldTypes, r₁) ∧
          .named (bodyClass tool media.mediaType) ∈ models types ∧
          r'.find? (bodyClass tool media.mediaType) = some d ∧
          d = (r₁.find? (bodyClass tool media.mediaType)).getD
            (recordOf own (bodyName tool media.mediaType) (some media.mediaType) fieldTypes) ∧
          (Annotated media.mediaType d ↔
            ∀ e, r₁.find? (bodyClass tool media.mediaType) = some e →
              Annotated media.mediaType e) := by
  rw [mapContent_eq] at h
  obtain ⟨⟨types, r₀⟩, htypes, hjoin⟩ := Option.bind_eq_some_iff.mp h
  refine ⟨types, r₀, htypes, hjoin, ?_⟩
  rintro before media after node own rfl hschema hown
  obtain ⟨ts, r₁, ts', hbefore, hrest, rfl⟩ := mapM_append_eq_some.mp htypes
  rw [List.mapM_cons] at hrest
  obtain ⟨⟨type, r₃⟩, htype, hafter⟩ := Option.bind_eq_some_iff.mp hrest
  obtain ⟨⟨more, r₄⟩, hmore, hresult⟩ := Option.bind_eq_some_iff.mp hafter
  cases hresult
  rw [bodyType, hschema, mapNode_ownObject ⟨components, []⟩ (some media.mediaType) hown] at htype
  obtain ⟨fieldTypes, r₂, hfields, rfl, hfind⟩ := find?_mapObject htype
  -- What is mapped behind the record leaves it under its class.
  have hwithin : r₃.Within r' := by
    have hI := keptByClasses_within r₃
    have hafter := Keeps.mapM (fun _ => keeps_mapNode hI _ _ _ _ _) after r₃ more r₀ (.refl r₃) hmore
    exact keeps_joinModels hI tool _ r₀ body r' hafter hjoin
  refine ⟨fieldTypes, r₂, _, ?_, mem_models (List.mem_append_right ts List.mem_cons_self),
    hwithin.find? hfind, rfl, ?_⟩
  · exact Option.bind_eq_some_iff.mpr ⟨_, hbefore, hfields⟩
  · exact annotated_getD (annotated_recordOf own _ media.mediaType fieldTypes)

/-! ## Two media types -/

/-- An object of which nothing is known, as an order in JSON and as one in plain text. -/
def orders : List Api.MediaSchema := [⟨"application/json", plainObject⟩, ⟨"text/plain", plainObject⟩]

/-- The record of an object without properties for a media type. -/
def emptyRecord (className mediaType : String) : Declaration :=
  .record className none [.ofProperty "content_type_annotation" (.literal mediaType) true none]

/-- The registry of a body for both media types. -/
def orderTypes : Registry where
  declarations := [emptyRecord "OrderApplicationJson" "application/json",
    emptyRecord "OrderTextPlain" "text/plain",
    .union "OrderRequestBody" [.named "OrderApplicationJson", .named "OrderTextPlain"]]

theorem bodyType_json : bodyType [] "order" ⟨"application/json", plainObject⟩ {} =
    some (.named "OrderApplicationJson",
      ⟨[emptyRecord "OrderApplicationJson" "application/json"]⟩) :=
  mapWithin_below 1 _ _ _ _ _ _ _ rfl

theorem mapContent_orders :
    mapContent [] orders "order" {} = some (some (.named "OrderRequestBody"), orderTypes) := by
  have htext : bodyType [] "order" ⟨"text/plain", plainObject⟩
      ⟨[emptyRecord "OrderApplicationJson" "application/json"]⟩ =
        some (.named "OrderTextPlain", ⟨[emptyRecord "OrderApplicationJson" "application/json",
          emptyRecord "OrderTextPlain" "text/plain"]⟩) :=
    mapWithin_below 1 _ _ _ _ _ _ _ rfl
  rw [mapContent_eq, orders]
  simp only [List.mapM_cons, List.mapM_nil, bind_apply, pure_apply, bodyType_json, htext,
    Option.bind_some]
  rfl

/-- Nothing stands under the class of the second media type before its record, so that names it. -/
theorem body_annotated_orders :
    ∃ d, orderTypes.find? "OrderTextPlain" = some d ∧ Annotated "text/plain" d := by
  have hclass : bodyClass "order" "text/plain" = "OrderTextPlain" := by decide +kernel
  have hbefore : beforeRecord [] "order" [⟨"application/json", plainObject⟩] "text/plain"
      [("type", .str "object")] {} =
        some ([], ⟨[emptyRecord "OrderApplicationJson" "application/json"]⟩) := by
    rw [beforeRecord, List.mapM_cons, bind_apply, bind_apply, bodyType_json]
    rfl
  obtain ⟨types, r₀, -, -, hall⟩ := body_annotated_iff mapContent_orders
  obtain ⟨fieldTypes, r₁, d, hr₁, -, hd, -, hiff⟩ :=
    hall [⟨"application/json", plainObject⟩] ⟨"text/plain", plainObject⟩ [] _ _ rfl rfl rfl
  cases hbefore.symm.trans hr₁
  rw [hclass] at hd hiff
  refine ⟨d, hd, hiff.mpr fun e he => ?_⟩
  cases he

/-! ## Records that name another media type, or none -/

def petSchemas : Members := [("Pet", plainObject)]

def petReference : Json := .obj [("$ref", .str "#/components/schemas/Pet")]

/-- Media types of one class share the record of the first one. A component that is referred to has a
record that names no media type. -/
theorem body_not_annotated_namesakes :
    (mapContent [] [⟨"application/ld+json", plainObject⟩, ⟨"application/ld-json", plainObject⟩]
        "order" {} = some (some (.named "OrderApplicationLdJson"),
          ⟨[emptyRecord "OrderApplicationLdJson" "application/ld+json"]⟩) ∧
      ¬Annotated "application/ld-json"
        (emptyRecord "OrderApplicationLdJson" "application/ld+json")) ∧
    mapContent petSchemas [⟨"application/json", petReference⟩] "order" {} =
        some (some (.named "Pet"), ⟨[.record "Pet" none []]⟩) ∧
      ¬Annotated "application/json" (.record "Pet" none []) := by
  have hfirst : bodyType [] "order" ⟨"application/ld+json", plainObject⟩ {} =
      some (.named "OrderApplicationLdJson",
        ⟨[emptyRecord "OrderApplicationLdJson" "application/ld+json"]⟩) :=
    mapWithin_below 1 _ _ _ _ _ _ _ rfl
  have hsecond : bodyType [] "order" ⟨"application/ld-json", plainObject⟩
      ⟨[emptyRecord "OrderApplicationLdJson" "application/ld+json"]⟩ =
        some (.named "OrderApplicationLdJson",
          ⟨[emptyRecord "OrderApplicationLdJson" "application/ld+json"]⟩) :=
    mapWithin_below 1 _ _ _ _ _ _ _ rfl
  have hpet : bodyType petSchemas "order" ⟨"application/json", petReference⟩ {} =
      some (.named "Pet", ⟨[.record "Pet" none []]⟩) := mapWithin_below 2 _ _ _ _ _ _ _ rfl
  refine ⟨⟨?_, by decide⟩, ?_, by decide⟩
  · rw [mapContent_eq]
    simp only [List.mapM_cons, List.mapM_nil, bind_apply, pure_apply, hfirst, hsecond,
      Option.bind_some]
    rfl
  · rw [mapContent_eq]
    simp only [List.mapM_cons, List.mapM_nil, bind_apply, pure_apply, hpet, Option.bind_some]
    rfl

end AgentCompiler.Schema
