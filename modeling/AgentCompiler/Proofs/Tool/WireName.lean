import AgentCompiler.Proofs.Api.Extraction
import AgentCompiler.Proofs.Tool.Input

/-!
# Parameters of one name

An operation tells its parameters apart by name and location. What is advertised of it, and the record
that it takes, go by the name alone. So both keep parameters apart exactly when those of one name stand
in one location: `parameters_apart_iff`.
-/

namespace AgentCompiler

/-! ## Names and locations -/

namespace Api

/-- Parameters of one name stand in one location. -/
def NamesApart (ps : List Parameter) : Prop :=
  ∀ p ∈ ps, ∀ q ∈ ps, p.name = q.name → p.location = q.location

/-- Different parameters have different names when those of one name stand in one location. -/
theorem nodup_names_iff {ps : List Parameter} (h : (ps.map Parameter.key).Nodup) :
    (ps.map (·.name)).Nodup ↔ NamesApart ps := by
  constructor
  · intro hnames p hp q hq heq
    rw [List.inj_on_of_nodup_map hnames hp hq heq]
  · intro hapart
    have hfst : ps.map (·.name) = (ps.map Parameter.key).map Prod.fst := by
      rw [List.map_map]
      rfl
    rw [hfst]
    refine h.map_on fun k hk l hl heq => ?_
    obtain ⟨p, hp, rfl⟩ := List.mem_map.mp hk
    obtain ⟨q, hq, rfl⟩ := List.mem_map.mp hl
    exact Prod.ext heq (hapart p hp q hq heq)

/-- An operation has the parameters of its own list and those that it takes over from its path. -/
theorem parameters_of_mem_operations {document : Json} {o : Operation} (h : o ∈ operations document) :
    ∃ own shared : Members,
      o.parameters = inherit (parametersOf document own) (parametersOf document shared) := by
  obtain ⟨⟨path, item⟩, -, ho⟩ := List.mem_flatMap.mp h
  cases item with
  | obj members =>
      obtain ⟨⟨method, node⟩, -, hnode⟩ := List.mem_filterMap.mp ho
      dsimp only at hnode
      rw [operation?] at hnode
      split at hnode
      · cases hnode
      · obtain ⟨own, -, hown⟩ := Option.bind_eq_some_iff.mp hnode
        cases hown
        exact ⟨own, members, rfl⟩
  | null | bool _ | num _ | str _ | arr _ => cases ho

end Api

namespace Tool

open Schema

/-! ## What is advertised and what is declared -/

/-- The properties that are advertised for parameters. -/
def parameterProperties (components : Members) (ps : List Api.Parameter) : Members :=
  Table.ofEntries (ps.map fun p => (p.name, parameterSchema components p))

theorem lookup_parameters_requestSchema {components : Members} {o : Api.Operation}
    (hps : o.parameters ≠ []) :
    ((requestSchema components o).getMembers? "properties").bind (·.lookup "parameters") =
      some (objectSchema (parameterProperties components o.parameters)
        (requiredParameters o.parameters)) := by
  have hempty : o.parameters.isEmpty = false := by simpa using hps
  rw [requestSchema, hempty]
  rfl

/-- There is a property for each parameter exactly when their names are different. -/
theorem length_parameterProperties_eq_iff (components : Members) (ps : List Api.Parameter) :
    (parameterProperties components ps).length = ps.length ↔ (ps.map (·.name)).Nodup := by
  have hentries : (parameterProperties components ps).length =
        (ps.map fun p => (p.name, parameterSchema components p)).length ↔ _ :=
    Table.length_ofEntries_eq_iff
  rw [List.length_map, List.map_map] at hentries
  exact hentries

/-- What the fields of a record are read and written under, in order. -/
def wireNames (d : Declaration) : List String := d.fields.map Field.wireName

theorem wireNames_parametersRecord {name : String} {ps : List Api.Parameter}
    {types : List TypeExpr} (h : types.length = ps.length) :
    wireNames (parametersRecord name ps types) = ps.map (·.name) := by
  have hsignature : (parametersRecord name ps types).signature = _ := signature_parametersRecord h
  have hfst := congrArg (List.map Prod.fst) hsignature
  rw [Declaration.signature, List.map_map, List.map_map] at hfst
  exact hfst

/-- The values of the fields of a record as they are written. -/
def written (d : Declaration) (values : List Json) : Members := Table.ofEntries ((wireNames d).zip values)

/-- No value is lost exactly when the fields are written under different names. -/
theorem length_written_eq_iff {d : Declaration} {values : List Json}
    (h : values.length = (wireNames d).length) :
    (written d values).length = values.length ↔ (wireNames d).Nodup := by
  have hentries : (written d values).length = ((wireNames d).zip values).length ↔ _ :=
    Table.length_ofEntries_eq_iff
  rw [List.map_fst_zip h.ge, List.length_zip, ← h, Nat.min_self] at hentries
  exact hentries

/-- The parameters of an operation are different in name or location exactly when those of its own list
are. Then there is one advertised property for each of them, and no value is lost when the record of
them is written, exactly when parameters of one name stand in one location; and what is advertised as
required repeats no name exactly when the same holds of the required ones. -/
theorem parameters_apart_iff {document : Json} {o : Api.Operation}
    (ho : o ∈ Api.operations document) (hps : o.parameters ≠ []) :
    (∃ own shared : Members,
      o.parameters =
        Api.inherit (Api.parametersOf document own) (Api.parametersOf document shared) ∧
      ((o.parameters.map Api.Parameter.key).Nodup ↔
        ((Api.parametersOf document own).map Api.Parameter.key).Nodup)) ∧
    ((o.parameters.map Api.Parameter.key).Nodup → ∃ properties : Members,
      ((requestSchema (components document) o).getMembers? "properties").bind
          (·.lookup "parameters") =
        some (objectSchema properties (requiredParameters o.parameters)) ∧
      (properties.length = o.parameters.length ↔ Api.NamesApart o.parameters) ∧
      ((requiredParameters o.parameters).Nodup ↔
        Api.NamesApart (o.parameters.filter (·.required))) ∧
      ∀ name r type r', r.contains (Name.pascal name) = false →
        mapParameters (components document) o.parameters name r = some (type, r') →
        ∃ (d : Declaration) (r₁ : Registry), r' = r₁.register d ∧ type = some (.named d.name) ∧
          wireNames d = o.parameters.map (·.name) ∧
          ((wireNames d).Nodup ↔ Api.NamesApart o.parameters) ∧
          ∀ values, values.length = o.parameters.length →
            ((written d values).length = values.length ↔ Api.NamesApart o.parameters)) := by
  constructor
  · obtain ⟨own, shared, hparameters⟩ := Api.parameters_of_mem_operations ho
    refine ⟨own, shared, hparameters, ?_⟩
    rw [hparameters]
    exact Api.nodup_inherit_iff _ _
  · intro hkeys
    have hnames := Api.nodup_names_iff hkeys
    have hrequired : ((o.parameters.filter (·.required)).map Api.Parameter.key).Nodup :=
      hkeys.sublist (List.filter_sublist.map _)
    refine ⟨_, lookup_parameters_requestSchema hps, ?_, Api.nodup_names_iff hrequired, ?_⟩
    · rw [length_parameterProperties_eq_iff, hnames]
    · intro name r type r' hnew hmapped
      rw [mapParameters_apply _ _ _ hps, hnew, if_neg Bool.false_ne_true] at hmapped
      obtain ⟨⟨types, r₁⟩, htypes, hresult⟩ := Option.map_eq_some_iff.mp hmapped
      cases hresult
      have hlength : types.length = o.parameters.length :=
        (mapM_forall₂ (R := fun _ _ => True) (fun _ _ _ _ _ => trivial) htypes).length_eq.symm
      have hwire : wireNames (parametersRecord name o.parameters types) = _ :=
        wireNames_parametersRecord hlength
      refine ⟨parametersRecord name o.parameters types, r₁, rfl, by rw [name_parametersRecord], hwire,
        by rw [hwire, hnames], fun values hvalues => ?_⟩
      rw [length_written_eq_iff (by rw [hwire, List.length_map, hvalues]), hwire, hnames]

/-! ## Parameters of a visit -/

/-- A text of the path or of the query. -/
def visitParameter (name : String) (location : Api.Location) : Api.Parameter :=
  { name, required := true, location, schema := some (Api.tagSchema "string") }

/-- An operation with a parameter `id` of the path and another one of the query. -/
def findVisit (name : String) : Api.Operation where
  path := "/visits"
  method := "get"
  parameters := [visitParameter "id" .path, visitParameter name .query]

def visitNode (name location : String) : Json :=
  .obj [("name", .str name), ("in", .str location), ("required", .bool true),
    ("schema", Api.tagSchema "string")]

def visitInterface (name : String) : Json :=
  .obj [("paths", .obj [("/visits", .obj [("get", .obj [
    ("parameters", .arr [visitNode "id" "path", visitNode name "query"])])])])]

theorem operations_visitInterface {name : String} (h : name = "day" ∨ name = "id") :
    Api.operations (visitInterface name) = [findVisit name] := by
  rcases h with rfl | rfl <;> rfl

/-- Under different names both parameters of a visit are advertised. -/
theorem parameters_apart_visits :
    ∃ properties, ((requestSchema [] (findVisit "day")).getMembers? "properties").bind
        (·.lookup "parameters") = some (objectSchema properties ["id", "day"]) ∧
      properties.length = 2 := by
  have hmem : findVisit "day" ∈ Api.operations (visitInterface "day") := by
    rw [operations_visitInterface (.inl rfl)]
    exact List.mem_cons_self
  obtain ⟨-, happly⟩ := parameters_apart_iff hmem (List.cons_ne_nil _ _)
  obtain ⟨properties, hproperties, hlength, -⟩ := happly (by decide +kernel)
  refine ⟨properties, hproperties, hlength.mpr fun p hp q hq heq => ?_⟩
  rcases List.mem_pair.mp hp with rfl | rfl <;> rcases List.mem_pair.mp hq with rfl | rfl
  · rfl
  · exact absurd heq (by decide +kernel)
  · exact absurd heq (by decide +kernel)
  · rfl

/-- Under one name one of the parameters of a visit is advertised, which is required twice, and the
fields of both are written under that name. -/
theorem parameters_merged_visits :
    findVisit "id" ∈ Api.operations (visitInterface "id") ∧
      ((findVisit "id").parameters.map Api.Parameter.key).Nodup ∧
      ((requestSchema [] (findVisit "id")).getMembers? "properties").bind
          (·.lookup "parameters") =
        some (objectSchema [("id", Api.tagSchema "string")] ["id", "id"]) ∧
      ∃ d, mapParameters [] (findVisit "id").parameters "visits_get_Params" {} =
          some (some (.named d.name), ⟨[d]⟩) ∧ wireNames d = ["id", "id"] := by
  refine ⟨?_, by decide +kernel, ?_, ?_⟩
  · rw [operations_visitInterface (.inr rfl)]
    exact List.mem_cons_self
  · rfl
  · have htype (p : Api.Parameter) (hp : p.schema = some (Api.tagSchema "string")) :
        parameterType [] "visits_get_Params" p {} = some (.text, {}) := by
      rw [parameterType, hp]
      exact mapWithin_below 1 _ _ _ _ _ _ _ rfl
    have htypes : (findVisit "id").parameters.mapM (parameterType [] "visits_get_Params") {} =
        some ([.text, .text], {}) := by
      rw [findVisit, List.mapM_cons, bind_apply, htype _ rfl, Option.bind_some, List.mapM_cons,
        bind_apply, bind_apply, htype _ rfl]
      rfl
    have hclass : Name.pascal "visits_get_Params" = "VisitsGetParams" := by decide +kernel
    have hnew : Registry.contains {} "VisitsGetParams" = false := rfl
    refine ⟨parametersRecord "visits_get_Params" (findVisit "id").parameters [.text, .text], ?_, ?_⟩
    · have hps : (findVisit "id").parameters ≠ [] := List.cons_ne_nil _ _
      rw [mapParameters_apply _ _ _ hps, name_parametersRecord, hclass, hnew,
        if_neg Bool.false_ne_true, htypes]
      rfl
    · rw [wireNames_parametersRecord rfl]
      rfl

end Tool

end AgentCompiler
