import AgentCompiler.Assembly.Header
import AgentCompiler.Proofs.Schema.Declared
import AgentCompiler.Proofs.Tool.Input
import AgentCompiler.Proofs.Typing.Hint

/-!
# Declarations under imported names

A module imports names before it declares its types, and a declaration under an imported name takes its
place for the rest of the module. The classes of a document's components are as free as their names are,
so any imported name that starts with a capital can be declared: `imports_shadowed_iff`.
-/

namespace AgentCompiler.Assembly

open Schema Tool

/-! ## Imported names -/

/-- The name that a part of an import binds: the one behind `as`, or else the first one of its path. -/
def boundName (part : List Char) : List Char :=
  (((part.splitOn ' ').getLast?).getD []).takeWhile (· ≠ '.')

/-- The names that a line binds when it is an import. -/
def lineNames (line : List Char) : List (List Char) :=
  match (line.splitOn ' ').dropWhile (· ≠ "import".toList) with
  | [] => []
  | _ :: words => ((List.intercalate [' '] words).splitOn ',').map boundName

/-- The names that the imports of a text bind. -/
def boundNames (text : List Char) : List (List Char) := (text.splitOn '\n').flatMap lineNames

/-- The names that every module of a profile imports. -/
def importedNames (profile : Profile) : List String :=
  ((boundNames header.toList) ++ boundNames (imports profile).toList).map String.ofList

/-- A short word of letters and digits, where it starts with a capital. -/
def IsPlainName (n : List Char) : Prop :=
  n.head?.any Char.isUpper → n.all Char.isAlphanum ∧ n.length ≤ Name.maxLength

instance : DecidablePred IsPlainName := fun n =>
  inferInstanceAs (Decidable (n.head?.any Char.isUpper → n.all Char.isAlphanum ∧ n.length ≤ _))

theorem isPlainName_of_mem {profile : Profile} {n : List Char}
    (h : n ∈ boundNames header.toList ++ boundNames (imports profile).toList) : IsPlainName n := by
  have hall {ls : List String} {lines : List (List Char)}
      (hlines : List.Forall₂ (fun s c => s = .ofList c) ls lines)
      (hplain : ∀ n ∈ boundNames (Text.joinLines lines), IsPlainName n) :
      ∀ n ∈ boundNames (Text.ofLines ls).toList, IsPlainName n :=
    Text.of_ofLines (P := fun s => ∀ n ∈ boundNames s, IsPlainName n) hlines hplain
  rcases List.mem_append.mp h with h | h
  · exact hall (by repeat' constructor) (by decide +kernel) n h
  · cases profile with
    | langgraph => exact hall (by repeat' constructor) (by decide +kernel) n h
    | strands => exact hall (by repeat' constructor) (by decide +kernel) n h

theorem mem_importedNames_any (profile : Profile) : "Any" ∈ importedNames profile := by
  have hany : "Any".toList ∈ boundNames header.toList :=
    Text.of_ofLines (P := fun s => "Any".toList ∈ boundNames s) (by repeat' constructor)
      (by decide +kernel)
  exact List.mem_map.mpr ⟨_, List.mem_append_left _ hany, String.ofList_toList⟩

/-- An imported name that starts with a capital is the class of some text. -/
theorem exists_pascal_eq_of_mem_importedNames {profile : Profile} {name : String}
    (h : name ∈ importedNames profile) (hcapital : ∃ c ∈ name.toList.head?, c.isUpper) :
    ∃ s : String, '/' ∉ s.toList ∧ Name.pascal s = name := by
  obtain ⟨n, hn, rfl⟩ := List.mem_map.mp h
  obtain ⟨c, hc, hupper⟩ := hcapital
  rw [String.toList_ofList] at hc
  obtain ⟨hchars, hlength⟩ := isPlainName_of_mem hn (by rw [hc]; exact hupper)
  refine Name.exists_pascal_eq ⟨c, ?_, hupper⟩ ?_ ?_
  · rw [String.toList_ofList]
    exact hc
  · rw [String.toList_ofList]
    exact List.all_eq_true.mp hchars
  · rw [String.length_ofList]
    exact hlength

/-! ## Components in a module -/

/-- A parameter with the schema of a component. -/
def petParameter (key : String) : Api.Parameter :=
  { name := "pet", schema := some (.obj [("$ref", .str ("#/components/schemas/" ++ key))]) }

/-- A parameter of which nothing is known. -/
def extraParameter : Api.Parameter := { name := "extra", schema := some (.obj []) }

/-- An interface with one component, to which a parameter refers. -/
def zooInterface (key : String) : Json :=
  .obj [("paths", .obj [("/pets", .obj [("get", .obj [("parameters", .arr [
      .obj [("name", .str "pet"), ("in", .str "query"),
        ("schema", .obj [("$ref", .str ("#/components/schemas/" ++ key))])],
      .obj [("name", .str "extra"), ("in", .str "query"), ("schema", .obj [])]])])])]),
    ("components", .obj [("schemas", .obj [(key, plainObject)])])]

def zoo (key : String) : ActionGroup :=
  { name := "zoo", schema := some (.interface (zooInterface key)) }

def listPets (key : String) : Api.Operation where
  path := "/pets"
  method := "get"
  parameters := [petParameter key, extraParameter]

/-- The record of the component. -/
def petRecord (key : String) : Declaration := .record (Name.pascal key) none []

/-- The record of the parameters. -/
def petsRecord (key : String) : Declaration :=
  .record "ZooPetsGetParams" none [.ofProperty "pet" (.named (Name.pascal key)) false none,
    .ofProperty "extra" .any false none]

/-- What stands behind the last slash of a path is its last segment. -/
theorem segment_append {path key : String} {parts : List Char} (hpath : path.toList = parts ++ ['/'])
    (h : '/' ∉ key.toList) : Schema.segment (path ++ key) = key := by
  have hkey : key.toList.splitOn '/' = [key.toList] :=
    List.splitOnP_eq_singleton fun c hc => by
      simpa using fun hslash : c = '/' => h (hslash ▸ hc)
  rw [Schema.segment, String.toList_append, hpath, List.append_assoc, List.singleton_append,
    List.splitOn_append_cons_self, hkey, List.getLast?_concat, Option.getD_some, String.ofList_toList]

section

variable {key : String} (h : '/' ∉ key.toList)
include h

/-- The reference is mapped to the class of the component, which is declared. -/
theorem mapField_pet (name : String) :
    mapField [(key, plainObject)] (.obj [("$ref", .str ("#/components/schemas/" ++ key))]) name {} =
      some (.named (Name.pascal key), ⟨[petRecord key]⟩) := by
  have hpath : ("#/components/schemas/" : String).toList =
      "#/components/schemas".toList ++ ['/'] := rfl
  have href : reference? [("$ref", .str ("#/components/schemas/" ++ key))] =
      some ("#/components/schemas/" ++ key) := rfl
  have hlookup : [(key, plainObject)].lookup key = some plainObject := by
    rw [Table.lookup_cons, if_pos rfl]
  rw [mapField, Scope.mapNode, mapStep_reference _ _ _ _ _ href, mapReference_apply,
    segment_append hpath h]
  simp only [hlookup]
  rw [mapNode_plainObject]
  rfl

omit h in
/-- A schema that says nothing leaves a field untyped. -/
theorem mapField_empty (components : Members) (name : String) (r : Registry) :
    mapField components (.obj []) name r = some (.any, r) :=
  mapWithin_below 1 _ _ _ _ _ _ _ rfl

theorem mapParameters_pets :
    mapParameters [(key, plainObject)] [petParameter key, extraParameter] "zoo_pets_get_Params" {} =
      some (some (.named "ZooPetsGetParams"),
        Registry.register ⟨[petRecord key]⟩ (petsRecord key)) := by
  have htypes : [petParameter key, extraParameter].mapM
      (parameterType [(key, plainObject)] "zoo_pets_get_Params") {} =
        some ([.named (Name.pascal key), .any], ⟨[petRecord key]⟩) := by
    rw [List.mapM_cons, bind_apply]
    refine (congrArg (Option.bind · _) (mapField_pet h _)).trans ?_
    rw [Option.bind_some, List.mapM_cons, bind_apply, bind_apply]
    exact congrArg (Option.bind · _) (congrArg (Option.bind · _) (mapField_empty _ _ _))
  have hclass : Name.pascal "zoo_pets_get_Params" = "ZooPetsGetParams" := by decide +kernel
  have hnew : Registry.contains {} "ZooPetsGetParams" = false := rfl
  have hrecord : parametersRecord "zoo_pets_get_Params" [petParameter key, extraParameter]
      [.named (Name.pascal key), .any] = petsRecord key := by
    unfold parametersRecord
    rw [hclass]
    rfl
  rw [mapParameters_apply _ _ _ (List.cons_ne_nil _ _), hclass, hnew, htypes,
    if_neg Bool.false_ne_true, Option.map_some, hrecord]

omit h in
theorem plan_zoo :
    plan [zoo key] = [⟨zoo key, "zoo",
      [("zoo_pets_get", .request (zooInterface key) (listPets key))]⟩] := by
  have horigins : origins (zoo key) = [.request (zooInterface key) (listPets key)] := by rfl
  have hname : Origin.rawName "zoo" (.request (zooInterface key) (listPets key)) =
      "zoo_pets_get" := by
    show Name.snake "zoo" ++ "_" ++ Name.snake "/pets" ++ "_" ++ "get" = _
    decide +kernel
  have hspaces : Name.namespaces ["zoo"] = ["zoo"] := by decide +kernel
  have hgroup : (zoo key).name = "zoo" := rfl
  simp only [plan, List.map_cons, List.map_nil, List.flatMap_cons, List.flatMap_nil, List.append_nil,
    horigins, hgroup, hname, hspaces]
  rfl

theorem build_zoo :
    ∃ t, Tool.build (zoo key) false "zoo_pets_get" (.request (zooInterface key) (listPets key)) {} =
      some (t, Registry.register ⟨[petRecord key]⟩ (petsRecord key)) := by
  have hinput : requestInput (zooInterface key) (listPets key) "zoo_pets_get" {} =
      some (.typed (.named "ZooPetsGetParams"),
        Registry.register ⟨[petRecord key]⟩ (petsRecord key)) :=
    Option.bind_eq_some_iff.mpr ⟨_, mapParameters_pets h, rfl⟩
  exact ⟨_, Option.bind_eq_some_iff.mpr ⟨_, hinput, rfl⟩⟩

/-- The component is declared in front of the parameters that refer to it. -/
theorem synthesize_zoo :
    ∃ gs, synthesize [zoo key] false {} =
      some (gs, Registry.register ⟨[petRecord key]⟩ (petsRecord key)) := by
  obtain ⟨t, ht⟩ := build_zoo h
  have hbuild : (Planned.mk (zoo key) "zoo"
      [("zoo_pets_get", .request (zooInterface key) (listPets key))]).build false {} =
      some (⟨"zoo", "zoo", none, [t]⟩, Registry.register ⟨[petRecord key]⟩ (petsRecord key)) := by
    refine Option.bind_eq_some_iff.mpr ⟨([t], _), ?_, rfl⟩
    rw [List.mapM_cons]
    exact Option.bind_eq_some_iff.mpr ⟨_, ht, rfl⟩
  refine ⟨[⟨"zoo", "zoo", none, [t]⟩], ?_⟩
  rw [synthesize, plan_zoo, List.mapM_cons]
  exact Option.bind_eq_some_iff.mpr ⟨_, hbuild, rfl⟩

/-! ## Declared imports -/

/-- A name that the types of some agent's tools declare. -/
def Declarable (name : String) : Prop :=
  ∃ groups gateway gs r, synthesize groups gateway {} = some (gs, r) ∧ r.contains name

/-- A component may have any name, so its class may be that of any text. -/
theorem declarable_pascal : Declarable (Name.pascal key) := by
  obtain ⟨gs, hgs⟩ := synthesize_zoo h
  refine ⟨_, _, gs, _, hgs, ?_⟩
  refine (Registry.within_register _ _).contains (Registry.contains_iff.mpr ?_)
  exact ⟨petRecord key, List.mem_cons_self, Declaration.name_record _ _ _⟩

end

/-- A name that can be declared starts with a capital. -/
theorem Declarable.capital {name : String} (h : Declarable name) :
    ∃ c ∈ name.toList.head?, c.isUpper := by
  obtain ⟨groups, gateway, gs, r, hrun, hcontains⟩ := h
  obtain ⟨d, hd, rfl⟩ := Registry.contains_iff.mp hcontains
  obtain ⟨s, hs⟩ := (classed_synthesize hrun).classes d hd
  rw [hs]
  exact (Name.isClass_pascal s).head

/-- Of the names that a module imports those that start with a capital can be declared, and no others.
In a module without a declaration called `Any` or `None` different types have different annotations, and
only there. -/
theorem imports_shadowed_iff {groups : List ActionGroup} {gateway : Bool} {gs : List ToolGroup}
    {r : Registry} (h : synthesize groups gateway {} = some (gs, r)) :
    (∀ profile, ∀ name ∈ importedNames profile,
      (Declarable name ↔ ∃ c ∈ name.toList.head?, c.isUpper)) ∧
    (Set.InjOn TypeExpr.hint {t | r.Knows t} ↔
      r.contains "Any" = false ∧ r.contains "None" = false) := by
  constructor
  · intro profile name hname
    refine ⟨Declarable.capital, fun hcapital => ?_⟩
    obtain ⟨s, hslash, rfl⟩ := exists_pascal_eq_of_mem_importedNames hname hcapital
    exact declarable_pascal hslash
  · refine Registry.injOn_hint_iff fun d hd => ?_
    obtain ⟨s, hs⟩ := (classed_synthesize h).classes d hd
    rw [hs]
    exact Name.isClass_pascal s

/-- With a component of another name the types of the zoo have annotations of their own. -/
theorem annotations_apart_zoo :
    ∃ gs, synthesize [zoo "Animal"] false {} =
        some (gs, Registry.register ⟨[petRecord "Animal"]⟩ (petsRecord "Animal")) ∧
      Set.InjOn TypeExpr.hint
        {t | (Registry.register ⟨[petRecord "Animal"]⟩ (petsRecord "Animal")).Knows t} := by
  have hslash : '/' ∉ ("Animal" : String).toList := by decide
  obtain ⟨gs, hgs⟩ := synthesize_zoo hslash
  exact ⟨gs, hgs, (imports_shadowed_iff hgs).2.mpr (by decide +kernel)⟩

/-- A component called `Any` takes the place of the import that untyped fields rely on: one record has a
field of that component and an untyped field, with the same annotation. -/
theorem any_shadowed_zoo :
    ∃ gs r, synthesize [zoo "Any"] false {} = some (gs, r) ∧
      (∀ profile, ∃ d ∈ r.declarations, d.name ∈ importedNames profile) ∧
      ∃ d ∈ r.declarations, ∃ f ∈ d.fields, ∃ g ∈ d.fields,
        f.type ≠ g.type ∧ f.type.hint = g.type.hint := by
  have hslash : '/' ∉ ("Any" : String).toList := by decide
  obtain ⟨gs, hgs⟩ := synthesize_zoo hslash
  have hclass : Name.pascal "Any" = "Any" := by decide +kernel
  have hregistry : Registry.register ⟨[petRecord "Any"]⟩ (petsRecord "Any") =
      ⟨[petRecord "Any", petsRecord "Any"]⟩ := by
    rw [Registry.register, if_neg (by decide +kernel)]
    rfl
  rw [hregistry] at hgs
  refine ⟨gs, _, hgs, fun profile => ⟨petRecord "Any", List.mem_cons_self, ?_⟩, petsRecord "Any",
    List.mem_cons_of_mem _ List.mem_cons_self, ?_⟩
  · rw [petRecord, Declaration.name_record, hclass]
    exact mem_importedNames_any profile
  · decide +kernel

end AgentCompiler.Assembly
