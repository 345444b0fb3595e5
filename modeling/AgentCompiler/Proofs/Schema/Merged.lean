import AgentCompiler.Proofs.Schema.Ending
import AgentCompiler.Proofs.Typing.Signature

/-!
# What a merged schema declares

The parts of `allOf` are followed through one reference, and only what they declare themselves is
merged. The branches of a schema are what it stands for at any depth. `mapNode_merged` says what the
record of a schema with parts declares, and when that is all that its branches do.
-/

namespace AgentCompiler.Schema

variable {components node : Members} {schema : Json} {parts : List Json} {property : String}

/-! ## Branches -/

/-- The component that a schema refers to. -/
def target? (components : Members) (schema : Json) : Option Json :=
  (schema.getString? "$ref").bind fun reference => components.lookup (segment reference)

/-- The schemas that a schema stands for at any depth: the target of a reference in place of the
reference, and any other schema with the parts that it has. -/
inductive Branch (components : Members) : Json → Json → Prop
  | itself {schema : Json} (htarget : target? components schema = none) :
      Branch components schema schema
  | part {schema p branch : Json} {parts : List Json} (htarget : target? components schema = none)
      (hparts : schema.getItems? "allOf" = some parts) (hp : p ∈ parts)
      (hbranch : Branch components p branch) : Branch components schema branch
  | follow {schema target branch : Json} (htarget : target? components schema = some target)
      (hbranch : Branch components target branch) : Branch components schema branch

/-- A schema has a property itself. -/
def Declares (schema : Json) (property : String) : Prop :=
  property ∈ (properties schema).map Prod.fst

/-- A schema lists a property as required itself. -/
def Requires (schema : Json) (property : String) : Prop :=
  .str property ∈ (schema.getItems? "required").getD []

theorem part_eq (components : Members) (schema : Json) :
    part components schema = (target? components schema).getD schema := by
  unfold part target?
  cases schema.getString? "$ref" <;> rfl

/-- The parts of a schema are all that it stands for: it declares and requires nothing itself, and no
part refers further or has parts of its own. -/
structure Flat (components node : Members) (parts : List Json) : Prop where
  undeclared : ∀ property, ¬Declares (.obj node) property
  unrequired : ∀ property, ¬Requires (.obj node) property
  target : ∀ p ∈ parts, target? components (part components p) = none
  parts : ∀ p ∈ parts, (part components p).getItems? "allOf" = none

/-- A schema whose parts lead no further has no other branches than these parts. -/
theorem Flat.eq_of_branch (h : Flat components node parts) (href : reference? node = none)
    (hparts : parts? node = some parts) {branch : Json}
    (hbranch : Branch components (.obj node) branch) :
    branch = .obj node ∨ ∃ p ∈ parts, branch = part components p := by
  have hnone : target? components (.obj node) = none := by
    show (reference? node).bind _ = none
    rw [href]
    rfl
  -- A schema that leads no further is its only branch.
  have hlast {p branch : Json} (htarget : target? components p = none)
      (hends : p.getItems? "allOf" = none) (hbranch : Branch components p branch) : branch = p := by
    cases hbranch with
    | itself => rfl
    | part _ hparts => cases hends.symm.trans hparts
    | follow htarget' => cases htarget.symm.trans htarget'
  cases hbranch with
  | itself => exact .inl rfl
  | follow htarget => cases hnone.symm.trans htarget
  | @part _ p _ parts' _ hparts' hp hbranch =>
      obtain rfl : parts = parts' := Option.some.inj (hparts.symm.trans hparts')
      refine .inr ⟨p, hp, ?_⟩
      have htarget := h.target p hp
      have hends := h.parts p hp
      rw [part_eq] at htarget hends ⊢
      cases hp' : target? components p with
      | none =>
          rw [hp', Option.getD_none] at htarget hends
          exact hlast htarget hends hbranch
      | some target =>
          rw [hp', Option.getD_some] at htarget hends
          cases hbranch with
          | itself htarget' => cases htarget'.symm.trans hp'
          | part htarget' => cases htarget'.symm.trans hp'
          | follow htarget' hbranch =>
              obtain rfl := Option.some.inj (htarget'.symm.trans hp')
              exact hlast htarget hends hbranch

/-! ## Merging -/

/-- Members are added under the keys that are missing. -/
theorem keys_addMissing (ms more : Members) :
    ((ms.map Prod.fst).Nodup → ((addMissing ms more).map Prod.fst).Nodup) ∧
      ∀ key, key ∈ (addMissing ms more).map Prod.fst ↔
        key ∈ ms.map Prod.fst ∨ key ∈ more.map Prod.fst := by
  induction more generalizing ms with
  | nil => exact ⟨id, fun key => by simp [addMissing]⟩
  | cons e more ih =>
      have hstep : addMissing ms (e :: more) =
          addMissing (if (ms.lookup e.1).isSome then ms else ms ++ [e]) more := rfl
      rw [hstep]
      split
      · next hold =>
          have hmem : e.1 ∈ ms.map Prod.fst := Table.lookup_isSome_iff.mp hold
          refine ⟨(ih ms).1, fun key => ?_⟩
          rw [(ih ms).2 key, List.map_cons, List.mem_cons]
          constructor
          · exact fun h => h.imp_right .inr
          · rintro (h | rfl | h)
            · exact .inl h
            · exact .inl hmem
            · exact .inr h
      · next hnew =>
          have hmem : e.1 ∉ ms.map Prod.fst := fun h => hnew (Table.lookup_isSome_iff.mpr h)
          refine ⟨fun hnodup => (ih (ms ++ [e])).1 ?_, fun key => ?_⟩
          · rw [List.map_append, List.nodup_append]
            refine ⟨hnodup, List.nodup_singleton _, fun a ha b hb hab => hmem ?_⟩
            rw [← List.mem_singleton.mp hb, ← hab]
            exact ha
          · rw [(ih (ms ++ [e])).2 key]
            simp [or_assoc]

/-- The merged properties are those of the parts, each once. -/
theorem keys_mergedProperties (components : Members) (parts : List Json) :
    ((mergedProperties components parts).map Prod.fst).Nodup ∧
      ∀ property, property ∈ (mergedProperties components parts).map Prod.fst ↔
        ∃ p ∈ parts, Declares (part components p) property := by
  have hfold (ps : List Json) (ms : Members) (hms : (ms.map Prod.fst).Nodup) :
      ((ps.foldl (fun acc p => addMissing acc (properties p)) ms).map Prod.fst).Nodup ∧
        ∀ property, property ∈
          (ps.foldl (fun acc p => addMissing acc (properties p)) ms).map Prod.fst ↔
            property ∈ ms.map Prod.fst ∨ ∃ p ∈ ps, Declares p property := by
    induction ps generalizing ms with
    | nil => exact ⟨hms, fun property => by simp⟩
    | cons p ps ih =>
        obtain ⟨hnodup, hmem⟩ := ih _ ((keys_addMissing ms (properties p)).1 hms)
        refine ⟨hnodup, fun property => ?_⟩
        rw [List.foldl_cons, hmem, (keys_addMissing ms (properties p)).2, List.exists_mem_cons_iff,
          or_assoc]
        rfl
  obtain ⟨hnodup, hmem⟩ := hfold (parts.map (part components)) [] List.nodup_nil
  refine ⟨hnodup, fun property => ?_⟩
  rw [mergedProperties, hmem]
  simp

/-- A text is the same as itself only. -/
theorem same_str_iff {text : String} {value : Json} :
    Json.same (.str text) value ↔ value = .str text := by
  cases value with
  | str text' =>
      simp only [Json.same, beq_iff_eq, Json.str.injEq]
      exact eq_comm
  | null | bool _ | num _ | arr _ | obj _ => simp [Json.same]

/-- A text is added when it is missing. -/
theorem str_mem_addDistinct {text : String} (xs more : List Json) :
    .str text ∈ addDistinct xs more ↔ .str text ∈ xs ∨ .str text ∈ more := by
  induction more generalizing xs with
  | nil => simp [addDistinct]
  | cons x more ih =>
      have hstep : addDistinct xs (x :: more) =
          addDistinct (if xs.any (Json.same x) then xs else xs ++ [x]) more := rfl
      rw [hstep, ih, List.mem_cons]
      split
      · next hold =>
          -- What is passed over is there already, when it is this text.
          have hmem (h : .str text = x) : .str text ∈ xs := by
            obtain ⟨y, hy, hsame⟩ := List.any_eq_true.mp hold
            rw [← h] at hsame
            rwa [← same_str_iff.mp hsame]
          constructor
          · exact fun h => h.imp_right .inr
          · rintro (h | h | h)
            · exact .inl h
            · exact .inl (hmem h)
            · exact .inr h
      · rw [List.mem_append, List.mem_singleton, or_assoc]

/-- The merged schema requires what one of the parts does. -/
theorem mem_mergedRequired :
    .str property ∈ mergedRequired components parts ↔
      ∃ p ∈ parts, Requires (part components p) property := by
  have hfold (ps xs : List Json) :
      .str property ∈ ps.foldl
          (fun acc p => addDistinct acc ((p.getItems? "required").getD [])) xs ↔
        .str property ∈ xs ∨ ∃ p ∈ ps, Requires p property := by
    induction ps generalizing xs with
    | nil => simp
    | cons p ps ih =>
        rw [List.foldl_cons, ih, str_mem_addDistinct, List.exists_mem_cons_iff, or_assoc]
        rfl
  rw [mergedRequired, hfold]
  simp

theorem requiredNames_merge :
    requiredNames (merge components node parts) =
      (mergedRequired components parts).filterMap Json.string? := by
  have hlookup : (merge components node parts).lookup "required" =
      some (.arr (mergedRequired components parts)) := by
    cases h : node.lookup "description" <;> simp [merge, h, Table.lookup_cons]
  rw [requiredNames, hlookup]
  rfl

theorem mem_requiredNames_merge :
    property ∈ requiredNames (merge components node parts) ↔
      ∃ p ∈ parts, Requires (part components p) property := by
  rw [requiredNames_merge, ← mem_mergedRequired, List.mem_filterMap]
  constructor
  · rintro ⟨x, hx, htext⟩
    cases x with
    | str text =>
        obtain rfl := Option.some.inj htext
        exact hx
    | null | bool _ | num _ | arr _ | obj _ => cases htext
  · exact fun h => ⟨_, h, rfl⟩

/-! ## Mapping -/

/-- The record of an object, when the schemas of its properties have these types. -/
def recordOf (node : Members) (name : String) (mediaType : Option String) (types : List TypeExpr) :
    Declaration :=
  let first := mediaType.map fun m =>
    Field.ofProperty "content_type_annotation" (.literal m) true none
  .record (Name.pascal name) ((node.lookup "description").bind Json.string?)
    (first.toList ++ List.zipWith (fun e type => Field.ofProperty e.1 type
      ((requiredNames node).contains e.1) (e.2.getString? "description"))
      (properties (.obj node)) types)

/-- A record has a field for the media type, where there is one, and one for each property. -/
theorem signature_recordOf {name : String} {mediaType : Option String} {types : List TypeExpr}
    (h : types.length = (properties (.obj node)).length) :
    (recordOf node name mediaType types).signature =
      (mediaType.toList.map fun _ => ("content_type_annotation", true)) ++
        (properties (.obj node)).map fun e => (e.1, (requiredNames node).contains e.1) := by
  rw [recordOf, Declaration.signature_record, List.map_append]
  refine congrArg₂ (· ++ ·) ?_ (Field.map_signature_zipWith h _ _ _)
  cases mediaType <;> rfl

theorem name_recordOf (node : Members) (name : String) (mediaType : Option String)
    (types : List TypeExpr) : (recordOf node name mediaType types).name = Name.pascal name := by
  unfold recordOf
  exact Declaration.name_record _ _ _

/-- An object whose class is not declared becomes a record of the types of its properties. -/
theorem mapObject_apply (map : Mapper) (scope : Scope) (node : Members) {name : String} (mediaType : Option String)
    {r : Registry} (hnew : r.contains (Name.pascal name) = false) :
    mapObject (map scope · · .field none) node name mediaType r =
      ((fieldSchemas (properties (.obj node)) name r).mapM (hintWith map scope) r).map fun x =>
        (.named (Name.pascal name), x.2.register (recordOf node name mediaType x.1)) := by
  have hfields := mapM_bind_pure
    (fun e : String × Json => map scope e.2 (name ++ "_" ++ e.1) .field none)
    (fun e type => Field.ofProperty e.1 type ((requiredNames node).contains e.1)
      (e.2.getString? "description")) (properties (.obj node)) r
  rw [mapObject, fieldSchemas, bind_apply, get_apply, Option.bind_some, hnew]
  simp only [Bool.false_eq_true, if_false]
  rw [List.mapM_map]
  rw [bind_apply, hfields, Option.bind_map]
  simp only [declare_apply, Declaration.name_record]
  unfold recordOf
  generalize mediaType.map _ = first
  rw [Option.map_eq_bind]
  rfl

/-- A schema with parts is mapped as the object that they are merged to. -/
theorem mapNode_parts (scope : Scope) (name : String) (position : Position)
    (mediaType : Option String) (href : reference? node = none) (hbranches : branches? node = none)
    (hparts : parts? node = some parts) :
    Scope.mapNode scope (.obj node) name position mediaType =
      mapObject (Scope.mapNode scope · · .field none) (merge scope.components node parts) name
        mediaType := by
  funext r
  rw [Scope.mapNode, mapStep]
  simp only [href, hbranches, hparts]
  rw [Scope.mapNode, mapStep]
  simp only [reference?_merge, branches?_merge, parts?_merge, mapTagged, typeTag_merge,
    lookup_properties_merge, Option.isSome_some, Bool.true_or, if_true]

/-- A schema with parts becomes a record of the types of the merged properties. -/
theorem mapNode_parts_apply (scope : Scope) (position : Position) (mediaType : Option String)
    {name : String} {r : Registry} (href : reference? node = none) (hbranches : branches? node = none)
    (hparts : parts? node = some parts) (hnew : r.contains (Name.pascal name) = false) :
    Scope.mapNode scope (.obj node) name position mediaType r =
      ((fieldSchemas (mergedProperties scope.components parts) name r).mapM
        (hintWith Scope.mapNode scope) r).map fun x => (.named (Name.pascal name),
          x.2.register (recordOf (merge scope.components node parts) name mediaType x.1)) := by
  rw [mapNode_parts scope name position mediaType href hbranches hparts,
    mapObject_apply Scope.mapNode scope (merge scope.components node parts) mediaType hnew,
    properties_merge]

/-- The fields that the merged properties of a schema get. -/
def mergedFields (components node : Members) (parts : List Json) : List (String × Bool) :=
  (mergedProperties components parts).map fun e =>
    (e.1, (requiredNames (merge components node parts)).contains e.1)

/-- A merged property is one that a part declares, and it is required when a part requires it. -/
theorem mem_mergedFields {required : Bool} :
    (property, required) ∈ mergedFields components node parts ↔
      (∃ p ∈ parts, Declares (part components p) property) ∧
        (required = true ↔ ∃ p ∈ parts, Requires (part components p) property) := by
  have hrequired : (required = true ↔ ∃ p ∈ parts, Requires (part components p) property) ↔
      (requiredNames (merge components node parts)).contains property = required := by
    rw [← @mem_requiredNames_merge components node parts property, ← List.contains_iff_mem,
      ← Bool.eq_iff_iff]
    exact eq_comm
  rw [hrequired, ← (keys_mergedProperties components parts).2 property, mergedFields, List.mem_map,
    List.mem_map]
  constructor
  · rintro ⟨e, he, heq⟩
    obtain ⟨rfl, rfl⟩ := Prod.mk.inj heq
    exact ⟨⟨e, he, rfl⟩, rfl⟩
  · rintro ⟨⟨e, he, rfl⟩, rfl⟩
    exact ⟨e, he, rfl⟩

/-- There is a field for every property that a branch declares, and it is required when a branch
requires it. -/
def Covers (components : Members) (schema : Json) (fields : List (String × Bool)) : Prop :=
  ∀ branch, Branch components schema branch → ∀ property, Declares branch property →
    ∃ required, (property, required) ∈ fields ∧
      ((∃ b, Branch components schema b ∧ Requires b property) → required = true)

/-- The merged fields are those of all branches when the parts declare and require as much. -/
theorem covers_mergedFields_iff :
    Covers components schema (mergedFields components node parts) ↔
      ∀ branch, Branch components schema branch → ∀ property, Declares branch property →
        (∃ p ∈ parts, Declares (part components p) property) ∧
          ((∃ b, Branch components schema b ∧ Requires b property) →
            ∃ p ∈ parts, Requires (part components p) property) := by
  refine forall₄_congr fun branch _ property _ => ?_
  constructor
  · rintro ⟨required, hmem, hrequired⟩
    obtain ⟨hdeclares, hrequires⟩ := mem_mergedFields.mp hmem
    exact ⟨hdeclares, fun h => hrequires.mp (hrequired h)⟩
  · rintro ⟨hdeclares, hrequires⟩
    obtain ⟨e, he, rfl⟩ := List.mem_map.mp ((keys_mergedProperties components parts).2 property |>.mpr
      hdeclares)
    have hmem := List.mem_map_of_mem
      (f := fun e => (e.1, (requiredNames (merge components node parts)).contains e.1)) he
    exact ⟨_, hmem, fun h => (mem_mergedFields.mp hmem).2.mpr (hrequires h)⟩

/-- Where the parts are all that a schema stands for, nothing is lost. -/
theorem Flat.covers (h : Flat components node parts) (href : reference? node = none)
    (hparts : parts? node = some parts) :
    Covers components (.obj node) (mergedFields components node parts) := by
  rw [covers_mergedFields_iff]
  intro branch hbranch property hdeclares
  constructor
  · rcases h.eq_of_branch href hparts hbranch with rfl | ⟨p, hp, rfl⟩
    · exact absurd hdeclares (h.undeclared property)
    · exact ⟨p, hp, hdeclares⟩
  · rintro ⟨b, hb, hrequires⟩
    rcases h.eq_of_branch href hparts hb with rfl | ⟨p, hp, rfl⟩
    · exact absurd hrequires (h.unrequired property)
    · exact ⟨p, hp, hrequires⟩

/-- A schema with parts under a fresh name becomes a record with one field for each property that a part
declares, required when a part requires it. So it has what all branches declare and require exactly when
the parts, followed through one reference, declare and require as much. They do where they lead no
further and the schema declares and requires nothing itself. The record is found under its name unless
the mapping of a property has declared that name. -/
theorem mapNode_merged (scope : Scope) (name : String) (position : Position)
    (mediaType : Option String) (r : Registry) (href : reference? node = none)
    (hbranches : branches? node = none) (hparts : parts? node = some parts)
    (hfresh : r.contains (Name.pascal name) = false)
    (hends : ¬Call.MergesForever scope.components
      ⟨scope.pending, .obj node, name, position, mediaType, r⟩) :
    ∃ types r₁ d own,
      (fieldSchemas (mergedProperties scope.components parts) name r).mapM
        (hintWith Scope.mapNode scope) r = some (types, r₁) ∧
      Scope.mapNode scope (.obj node) name position mediaType r =
        some (.named (Name.pascal name), r₁.register d) ∧
      (r₁.contains (Name.pascal name) = false →
        (r₁.register d).find? (Name.pascal name) = some d) ∧
      d.signature = (mediaType.toList.map fun _ => ("content_type_annotation", true)) ++ own ∧
      (own.map Prod.fst).Nodup ∧
      (Covers scope.components (.obj node) own ↔
        ∀ branch, Branch scope.components (.obj node) branch → ∀ property, Declares branch property →
          (∃ p ∈ parts, Declares (part scope.components p) property) ∧
            ((∃ b, Branch scope.components (.obj node) b ∧ Requires b property) →
              ∃ p ∈ parts, Requires (part scope.components p) property)) ∧
      (Flat scope.components node parts → Covers scope.components (.obj node) own) := by
  obtain ⟨components, pending⟩ := scope
  have hrun := mapNode_parts_apply ⟨components, pending⟩ position mediaType href hbranches hparts hfresh
  have hsome : (Scope.mapNode ⟨components, pending⟩ (.obj node) name position mediaType r).isSome :=
    (Call.result_isSome_iff ⟨pending, .obj node, name, position, mediaType, r⟩).mpr hends
  rw [hrun, Option.isSome_map] at hsome
  obtain ⟨⟨types, r₁⟩, htypes⟩ := Option.isSome_iff_exists.mp hsome
  rw [htypes, Option.map_some] at hrun
  have hlength : types.length = (properties (.obj (merge components node parts))).length := by
    have hforall := mapM_forall₂ (R := fun _ _ => True) (fun _ _ _ _ _ => trivial) htypes
    rw [← hforall.length_eq, properties_merge, fieldSchemas, hfresh, if_neg Bool.false_ne_true,
      List.length_map]
  have hname := name_recordOf (merge components node parts) name mediaType types
  refine ⟨types, r₁, recordOf (merge components node parts) name mediaType types,
    mergedFields components node parts, htypes, hrun, fun hnew => ?_, ?_, ?_, covers_mergedFields_iff, fun hflat => hflat.covers href hparts⟩
  · rw [← hname] at hnew ⊢
    exact Registry.find?_register hnew
  · rw [signature_recordOf hlength, properties_merge]
    rfl
  · rw [mergedFields, List.map_map]
    exact (keys_mergedProperties components parts).1

/-! ## Animals -/

/-- An object with one required property. -/
def animal : Json :=
  .obj [("type", .str "object"), ("properties", .obj [("id", .obj [("type", .str "string")])]),
    ("required", .arr [.str "id"])]

/-- An animal, as a schema with one part. -/
def cat : Json := .obj [("allOf", .arr [.obj [("$ref", .str "#/components/schemas/Animal")]])]

def animals : Members := [("Animal", animal), ("Cat", cat)]

/-- An animal with a property besides. -/
def siamese : Members :=
  [("allOf", .arr [.obj [("$ref", .str "#/components/schemas/Animal")],
    .obj [("properties", .obj [("lives", .obj [("type", .str "integer")])]),
      ("required", .arr [.str "lives"])]])]

/-- A cat, which is an animal only at second hand. -/
def kitten : Members := [("allOf", .arr [.obj [("$ref", .str "#/components/schemas/Cat")]])]

theorem target?_animal :
    target? animals (.obj [("$ref", .str "#/components/schemas/Animal")]) = some animal := by
  have hsegment : segment "#/components/schemas/Animal" = "Animal" := by decide
  show animals.lookup (segment "#/components/schemas/Animal") = _
  rw [hsegment]
  rfl

theorem flat_siamese : ∃ parts, parts? siamese = some parts ∧ Flat animals siamese parts := by
  refine ⟨_, rfl, fun property => ?_, fun property => ?_, ?_, ?_⟩
  · exact List.not_mem_nil
  · exact List.not_mem_nil
  · rintro p hp
    rw [part_eq]
    rcases List.mem_pair.mp hp with rfl | rfl
    · rw [target?_animal]
      rfl
    · rfl
  · rintro p hp
    rw [part_eq]
    rcases List.mem_pair.mp hp with rfl | rfl
    · rw [target?_animal]
      rfl
    · rfl

theorem mapNode_merged_siamese :
    ∃ (r : Registry) (d : Declaration), mapRoot animals (.obj siamese) "siamese" {} =
        some (.named "Siamese", r.register d) ∧
      Covers animals (.obj siamese) d.signature := by
  have hclass : Name.pascal "siamese" = "Siamese" := by decide
  have hsome : (Call.result animals ⟨[], .obj siamese, "siamese", .root, none, {}⟩).isSome :=
    Option.isSome_iff_exists.mpr ⟨_, mapWithin_below 3 _ _ _ _ _ _ _ rfl⟩
  obtain ⟨parts, hparts, hflat⟩ := flat_siamese
  obtain ⟨types, r, d, own, -, hresult, -, hsignature, -, -, hcovers⟩ :=
    mapNode_merged (Scope.mk animals []) "siamese" .root none {} rfl rfl hparts rfl
      ((Call.result_isSome_iff _).mp hsome)
  rw [hclass] at hresult
  refine ⟨r, d, hresult, ?_⟩
  rw [hsignature]
  exact hcovers hflat

/-- What is required of an animal is lost where a cat is a part. -/
theorem not_covers_kitten :
    mapRoot animals (.obj kitten) "kitten" {} =
        some (.named "Kitten", ⟨[.record "Kitten" none []]⟩) ∧
      ¬Covers animals (.obj kitten) (Declaration.record "Kitten" none []).signature := by
  have hsegment : segment "#/components/schemas/Cat" = "Cat" := by decide
  have hcat : target? animals (.obj [("$ref", .str "#/components/schemas/Cat")]) = some cat := by
    show animals.lookup (segment "#/components/schemas/Cat") = _
    rw [hsegment]
    rfl
  constructor
  · exact mapWithin_below 3 _ _ _ _ _ _ _ rfl
  · intro hcovers
    have hbranch : Branch animals (.obj kitten) animal :=
      .part rfl rfl List.mem_cons_self (.follow hcat
        (.part rfl rfl List.mem_cons_self (.follow target?_animal (.itself rfl))))
    obtain ⟨required, hmem, -⟩ := hcovers animal hbranch "id" List.mem_cons_self
    cases hmem

end AgentCompiler.Schema
