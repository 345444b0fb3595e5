import Mathlib.Data.List.Forall2
import AgentCompiler.Api.Operation
import AgentCompiler.Proofs.Json.Canonical
import AgentCompiler.Proofs.Json.Pointer

/-!
# What is taken from an interface document

The members of the paths of a document are gone through in order. Each that stands under a known method
and is an object gives one operation, and no other member gives one, whatever else the document holds:
`operations_extracted`. An operation has the usable parameters of its own list, and behind them those of
its path that it does not declare.
-/

namespace AgentCompiler.Api

variable {document json : Json} {node : Members} {own shared : List Parameter} {p : Parameter}

/-! ## Parameters -/

/-- What parameters are told apart by. -/
def Parameter.key (p : Parameter) : String × Location := (p.name, p.location)

/-- What stands in a node's list of parameters. -/
def listed (node : Members) : List Json := ((node.lookup "parameters").bind Json.items?).getD []

/-- A node stands for the value that its reference leads to within the document. Without a reference, or
with one that leads nowhere, it stands for itself. -/
inductive StandsFor (document node : Json) : Json → Prop
  | reference {pointer : List Char} {target : Json}
      (found : node.getString? "$ref" = some (.ofList ('#' :: pointer)))
      (leads : Json.Leads document pointer target) : StandsFor document node target
  | itself (nowhere : ∀ pointer target, node.getString? "$ref" = some (.ofList ('#' :: pointer)) →
      ¬Json.Leads document pointer target) : StandsFor document node node

theorem follow_of_local {pointer : List Char}
    (found : json.getString? "$ref" = some (.ofList ('#' :: pointer))) :
    follow document json = (document.pointer? (.ofList pointer)).getD json := by
  rw [follow, found]
  dsimp only
  rw [String.toList_ofList]
  rfl

theorem follow_of_foreign
    (h : ∀ pointer : List Char, json.getString? "$ref" ≠ some (.ofList ('#' :: pointer))) :
    follow document json = json := by
  unfold follow
  split
  · rfl
  next reference found =>
  split
  · next pointer hpointer =>
      refine absurd ?_ (h pointer)
      rw [found, ← hpointer, String.ofList_toList]
  · rfl

/-- Following a node finds what it stands for, and nothing else. -/
theorem standsFor_iff {target : Json} : StandsFor document json target ↔ target = follow document json := by
  by_cases hlocal : ∃ pointer, json.getString? "$ref" = some (.ofList ('#' :: pointer))
  · obtain ⟨pointer, found⟩ := hlocal
    rw [follow_of_local found]
    have hpointer {other : List Char} (found' : json.getString? "$ref" = some (.ofList ('#' :: other))) :
        other = pointer :=
      (List.cons.inj (String.ofList_injective (Option.some.inj (found'.symm.trans found)))).2
    cases htarget : document.pointer? (.ofList pointer) with
    | some value =>
        have hleads : Json.Leads document pointer value := Json.leads_iff.mpr htarget
        constructor
        · rintro (⟨found', leads⟩ | nowhere)
          · rw [hpointer found', Json.leads_iff, htarget] at leads
            exact (Option.some.inj leads).symm
          · exact absurd hleads (nowhere pointer value found)
        · rintro rfl
          exact .reference found hleads
    | none =>
        have hnowhere (target : Json) : ¬Json.Leads document pointer target := by
          rw [Json.leads_iff, htarget]
          exact Option.some_ne_none target ∘ Eq.symm
        constructor
        · rintro (⟨found', leads⟩ | -)
          · exact absurd (hpointer found' ▸ leads) (hnowhere target)
          · rfl
        · rintro rfl
          exact .itself fun other target found' => hpointer found' ▸ hnowhere target
  · have hforeign := not_exists.mp hlocal
    rw [follow_of_foreign hforeign]
    constructor
    · rintro (⟨found, -⟩ | -)
      · exact absurd found (hforeign _)
      · rfl
    · rintro rfl
      exact .itself fun pointer _ found => absurd found (hforeign pointer)

/-- A parameter is what the members of an object say: its name, its text, where it stands, whether it has to
be there, and its schema or the schemas of its media types. Without both it has that of its type tag. -/
structure Reads (ms : Members) (p : Parameter) : Prop where
  name : ms.lookup "name" = some (.str p.name)
  named : p.name ≠ ""
  description : ∀ text, text ≠ "" → (p.description = text ↔ ms.lookup "description" = some (.str text))
  location : ∀ place, place ≠ .query → (p.location = place ↔ ms.lookup "in" = some (.str place.name))
  required : p.required ↔ ms.lookup "required" = some (.bool true) ∨ p.location = .path
  schema : ∀ schema, ms.lookup "schema" = some schema → p.schema = some schema
  tag : ms.lookup "schema" = none → ms.lookup "content" = none → ∃ tag, p.schema = some (tagSchema tag) ∧
    (ms.lookup "type" = some (.str tag) ∨ (∀ other, ms.lookup "type" ≠ some (.str other)) ∧ tag = "string")
  untyped : ms.lookup "schema" = none → (ms.lookup "content").isSome → p.schema = none
  content : List.Forall₂ (fun entry media => media.mediaType = entry.1 ∧
      (entry.2.get? "schema" = some media.schema ∨
        entry.2.get? "schema" = none ∧ media.schema = .obj []))
    (((ms.lookup "content").bind Json.members?).getD []) p.content

/-- A node describes a parameter by the members of what it stands for. -/
def Describes (document json : Json) (p : Parameter) : Prop :=
  ∃ ms, StandsFor document json (.obj ms) ∧ Reads ms p

/-- A usable node stands for an object with a name. -/
def IsUsable (document json : Json) : Prop :=
  ∃ ms name, StandsFor document json (.obj ms) ∧ ms.lookup "name" = some (.str name) ∧ name ≠ ""

/-- The parameters of a list are described by its usable nodes, one by one. -/
inductive Lists (document : Json) : List Json → List Parameter → Prop
  | nil : Lists document [] []
  | usable {json : Json} {jsons : List Json} {p : Parameter} {ps : List Parameter}
      (first : Describes document json p) (rest : Lists document jsons ps) :
      Lists document (json :: jsons) (p :: ps)
  | unusable {json : Json} {jsons : List Json} {ps : List Parameter} (first : ¬IsUsable document json)
      (rest : Lists document jsons ps) : Lists document (json :: jsons) ps

theorem bind_string?_eq_some_iff {key text : String} :
    (node.lookup key).bind Json.string? = some text ↔ node.lookup key = some (.str text) := by
  cases node.lookup key with
  | none => simp
  | some value => cases value <;> simp [Json.string?]

theorem bind_string?_eq_none_iff {key : String} :
    (node.lookup key).bind Json.string? = none ↔ ∀ text, node.lookup key ≠ some (.str text) := by
  simp only [Option.eq_none_iff_forall_ne_some, ne_eq, bind_string?_eq_some_iff]

theorem bind_bool?_getD_iff {key : String} :
    ((node.lookup key).bind Json.bool?).getD false = true ↔ node.lookup key = some (.bool true) := by
  cases node.lookup key with
  | none => simp
  | some value => cases value <;> simp [Json.bool?]

/-- A text that is not empty is the text under the key. -/
theorem textOf_eq_some_iff {key text : String} :
    textOf node key = some text ↔ node.lookup key = some (.str text) ∧ text ≠ "" := by
  rw [textOf, Option.filter_eq_some_iff, bind_string?_eq_some_iff]
  simp

/-- Each place of a request but the query has its name, and no other text stands for it. -/
theorem ofName_eq_iff {name : String} {place : Location} (h : place ≠ .query) :
    Location.ofName name = place ↔ name = place.name := by
  constructor
  · rintro rfl
    unfold Location.ofName at h ⊢
    split at h
    · rfl
    · rfl
    · rfl
    · exact absurd rfl h
  · rintro rfl
    cases place with
    | query => exact absurd rfl h
    | path | header | cookie => rfl

/-- A parameter is read as its object says. -/
theorem describes_of_eq_some (h : parameter? document json = some p) : Describes document json p := by
  rw [parameter?] at h
  obtain ⟨ms, hms, h⟩ := Option.bind_eq_some_iff.mp h
  obtain ⟨name, hname, h⟩ := Option.bind_eq_some_iff.mp h
  have hnode : follow document json = .obj ms := by
    cases hfollow : follow document json with
    | obj ns => rw [hfollow] at hms; cases hms; rfl
    | null | bool _ | num _ | str _ | arr _ => rw [hfollow] at hms; cases hms
  obtain ⟨hlookup, hnamed⟩ := textOf_eq_some_iff.mp hname
  obtain rfl := Option.some.inj h
  refine ⟨ms, standsFor_iff.mpr hnode.symm, ?_⟩
  constructor
  case name => exact hlookup
  case named => exact hnamed
  case description =>
    intro text htext
    rw [← and_iff_left htext (a := ms.lookup "description" = _), ← textOf_eq_some_iff]
    cases textOf ms "description" with
    | none => simpa using htext.symm
    | some other => simp
  case location =>
    intro place hplace
    cases hin : (ms.lookup "in").bind Json.string? with
    | none => exact iff_of_false hplace.symm (bind_string?_eq_none_iff.mp hin _)
    | some other =>
        rw [bind_string?_eq_some_iff.mp hin, Option.some.injEq, Json.str.injEq]
        exact ofName_eq_iff hplace
  case required =>
    dsimp only
    rw [Bool.or_eq_true, bind_bool?_getD_iff, beq_iff_eq]
  case schema =>
    intro schema hschema
    dsimp only
    rw [hschema]
  case tag =>
    intro hschema hcontent
    dsimp only
    rw [hschema, hcontent]
    refine ⟨_, rfl, ?_⟩
    cases htype : (ms.lookup "type").bind Json.string? with
    | none => exact .inr ⟨bind_string?_eq_none_iff.mp htype, rfl⟩
    | some tag => exact .inl (bind_string?_eq_some_iff.mp htype)
  case untyped =>
    intro hschema hcontent
    obtain ⟨content, hcontent⟩ := Option.isSome_iff_exists.mp hcontent
    dsimp only
    rw [hschema, hcontent]
  case content =>
    dsimp only
    rw [mediaSchemas, List.forall₂_map_right_iff, List.forall₂_same]
    rintro ⟨mediaType, entry⟩ -
    refine ⟨rfl, ?_⟩
    dsimp only
    cases entry.get? "schema" with
    | none => exact .inr ⟨rfl, rfl⟩
    | some schema => exact .inl rfl

/-- A parameter is read from each usable node, and from no other. -/
theorem isSome_parameter?_iff : (parameter? document json).isSome ↔ IsUsable document json := by
  constructor
  · intro h
    obtain ⟨p, hp⟩ := Option.isSome_iff_exists.mp h
    obtain ⟨ms, hstands, hreads⟩ := describes_of_eq_some hp
    exact ⟨ms, p.name, hstands, hreads.name, hreads.named⟩
  · rintro ⟨ms, name, hstands, hname, hnamed⟩
    rw [parameter?, ← standsFor_iff.mp hstands]
    show Option.isSome ((textOf ms "name").bind _)
    rw [textOf_eq_some_iff.mpr ⟨hname, hnamed⟩]
    rfl

theorem lists_filterMap (document : Json) (jsons : List Json) :
    Lists document jsons (jsons.filterMap (parameter? document)) := by
  induction jsons with
  | nil => exact .nil
  | cons json jsons ih =>
      cases hread : parameter? document json with
      | none =>
          rw [List.filterMap_cons_none hread]
          refine .unusable (fun husable => ?_) ih
          rw [← isSome_parameter?_iff, hread] at husable
          cases husable
      | some p =>
          rw [List.filterMap_cons_some hread]
          exact .usable (describes_of_eq_some hread) ih

/-! ## Inherited parameters -/

theorem declares_iff {ps : List Parameter} {p : Parameter} :
    declares ps p ↔ p.key ∈ ps.map Parameter.key := by
  simp only [declares, List.any_eq_true, Bool.and_eq_true, beq_iff_eq, List.mem_map, Parameter.key,
    Prod.mk.injEq]

/-- The parameters of a path that an operation with parameters of its own does not declare, of those with
one name and location the first. -/
def undeclared (own shared : List Parameter) : List Parameter :=
  (shared.filter fun p => p.key ∉ own.map Parameter.key).eraseDupsBy fun p q => p.key == q.key

/-- An operation takes over what it does not declare. -/
theorem inherit_eq (own shared : List Parameter) :
    inherit own shared = own ++ undeclared own shared := by
  rw [inherit, undeclared]
  induction shared generalizing own with
  | nil => exact (List.append_nil own).symm
  | cons p shared ih =>
      rw [List.foldl_cons]
      by_cases hp : p.key ∈ own.map Parameter.key
      · rw [if_pos (declares_iff.mpr hp), ih, List.filter_cons_of_neg (by simpa using hp)]
      · rw [if_neg fun h => hp (declares_iff.mp h), ih, List.filter_cons_of_pos (by simpa using hp),
          List.eraseDupsBy_cons, List.filter_filter, List.append_assoc, List.singleton_append]
        -- A later parameter is left out when it is declared, or is this one once more.
        congr 4
        funext q
        simp [not_or, and_comm]

/-- What an operation takes over from its path is different from all that it has. -/
theorem nodup_inherit_iff (own shared : List Parameter) :
    ((inherit own shared).map Parameter.key).Nodup ↔ (own.map Parameter.key).Nodup := by
  rw [inherit]
  induction shared generalizing own with
  | nil => rfl
  | cons p shared ih =>
      rw [List.foldl_cons, ih]
      split
      · rfl
      · next hnew =>
          rw [declares_iff] at hnew
          rw [List.map_append, List.map_singleton, List.nodup_append]
          refine ⟨fun h => h.1, fun h => ⟨h, List.nodup_singleton _, fun k hk l hl heq => ?_⟩⟩
          rw [List.mem_singleton.mp hl] at heq
          exact hnew (heq ▸ hk)

theorem mem_inherit (h : p ∈ inherit own shared) : p ∈ own ∨ p ∈ shared := by
  rw [inherit] at h
  induction shared generalizing own with
  | nil => exact .inl h
  | cons q shared ih =>
      rw [List.foldl_cons] at h
      rcases ih h with hmem | hmem
      · split at hmem
        · exact .inl hmem
        · rcases List.mem_append.mp hmem with hown | hq
          · exact .inl hown
          · exact .inr (List.mem_singleton.mp hq ▸ List.mem_cons_self)
      · exact .inr (List.mem_cons_of_mem q hmem)

/-! ## Operations -/

/-- A member of a path of a document. -/
structure PathMember where
  path : String
  /-- All members of the path. -/
  item : Members
  key : String
  node : Json

/-- The members of the paths of a document, in order. A path that is no object has none. -/
def pathMembers (document : Json) : List PathMember :=
  ((document.getMembers? "paths").getD []).flatMap fun (path, item) =>
    (item.members?.getD []).map fun (key, node) => ⟨path, item.members?.getD [], key, node⟩

/-- A member describes an operation when it stands under a known method and is an object. -/
def PathMember.isOperation (m : PathMember) : Bool := methods.contains m.key && m.node.members?.isSome

/-- An operation is taken from a member of a path. It has the usable parameters of its own list, and behind
them those of the path that it does not declare. -/
structure Extracts (document : Json) (m : PathMember) (o : Operation) : Prop where
  path_eq : o.path = m.path
  method_eq : o.method = m.key
  parameters_eq : ∃ node own shared, m.node = .obj node ∧ Lists document (listed node) own ∧
    Lists document (listed m.item) shared ∧ o.parameters = own ++ undeclared own shared ∧
    ((own.map Parameter.key).Nodup → (o.parameters.map Parameter.key).Nodup)
  required : ∀ p ∈ o.parameters, p.location = .path → p.required

/-- What a function of the items of a list gives stands for those for which it gives something. -/
theorem forall₂_filterMap {α β : Type} (f : α → Option β) (l : List α) :
    List.Forall₂ (fun a b => f a = some b) (l.filter fun a => (f a).isSome) (l.filterMap f) := by
  induction l with
  | nil => exact .nil
  | cons a l ih =>
      cases h : f a with
      | none =>
          rw [List.filterMap_cons_none h, List.filter_cons_of_neg (by rw [h]; exact Bool.false_ne_true)]
          exact ih
      | some b =>
          rw [List.filterMap_cons_some h, List.filter_cons_of_pos (by rw [h]; rfl)]
          exact .cons h ih

/-- An operation is read from each member that describes one, and from no other. -/
theorem isSome_operation? (document : Json) (m : PathMember) :
    (operation? document m.path m.item m.key m.node).isSome = m.isOperation := by
  rw [operation?, PathMember.isOperation]
  cases methods.contains m.key with
  | false => rfl
  | true => cases m.node.members? <;> rfl

theorem operations_eq (document : Json) : operations document =
    (pathMembers document).filterMap fun m => operation? document m.path m.item m.key m.node := by
  rw [operations, pathMembers, List.filterMap_flatMap]
  refine congrArg (List.flatMap · _) (funext fun ⟨path, item⟩ => ?_)
  rw [List.filterMap_map]
  cases item with
  | obj ms => rfl
  | null | bool _ | num _ | str _ | arr _ => rfl

theorem required_of_mem_parametersOf (h : p ∈ parametersOf document node) (hpath : p.location = .path) :
    p.required := by
  obtain ⟨json, -, hread⟩ := List.mem_filterMap.mp h
  obtain ⟨ms, -, hreads⟩ := describes_of_eq_some hread
  exact hreads.required.mpr (.inr hpath)

theorem extracts_of_eq_some {m : PathMember} {o : Operation}
    (h : operation? document m.path m.item m.key m.node = some o) : Extracts document m o := by
  rw [operation?] at h
  split at h
  · cases h
  obtain ⟨node, hnode, h⟩ := Option.bind_eq_some_iff.mp h
  have hobject : m.node = .obj node := by
    cases hm : m.node with
    | obj ms => rw [hm] at hnode; cases hnode; rfl
    | null | bool _ | num _ | str _ | arr _ => rw [hm] at hnode; cases hnode
  obtain rfl := Option.some.inj h
  refine ⟨rfl, rfl, ⟨node, _, _, hobject, lists_filterMap document (listed node),
    lists_filterMap document (listed m.item), inherit_eq _ _, (nodup_inherit_iff _ _).mpr⟩,
    fun p hp => ?_⟩
  rcases mem_inherit hp with hp | hp
  · exact required_of_mem_parametersOf hp
  · exact required_of_mem_parametersOf hp

/-- The members of an object, or none, have different keys in a valid document. -/
theorem nodup_keys (h : json.Valid) : ((json.members?.getD []).map Prod.fst).Nodup := by
  cases json with
  | obj ms => exact h.nodup
  | null | bool _ | num _ | str _ | arr _ => exact List.nodup_nil

/-- In a valid document no member of a path is repeated. -/
theorem nodup_pathMembers (h : document.Valid) :
    ((pathMembers document).map fun m => (m.path, m.key)).Nodup := by
  have hpaths : (Json.obj ((document.getMembers? "paths").getD [])).Valid := by
    cases hpaths : document.getMembers? "paths" with
    | none => exact .obj List.nodup_nil (List.forall_mem_nil _)
    | some paths =>
        obtain ⟨value, hvalue, hobject⟩ := Option.bind_eq_some_iff.mp hpaths
        cases document with
        | obj ms =>
            have hvalid := h.member (Table.mem_of_lookup hvalue)
            cases value with
            | obj ns => cases hobject; exact hvalid
            | null | bool _ | num _ | str _ | arr _ => cases hobject
        | null | bool _ | num _ | str _ | arr _ => cases hvalue
  rw [pathMembers, List.map_flatMap, List.nodup_flatMap]
  constructor
  · rintro ⟨path, item⟩ hitem
    have hkeys := (nodup_keys (hpaths.member hitem)).map (Prod.mk_right_injective path)
    rwa [List.map_map] at hkeys ⊢
  · -- Members of two paths differ in the path.
    refine (List.pairwise_map.mp hpaths.nodup).imp fun {a b} hne => ?_
    intro k hk hk'
    simp only [List.map_map, List.mem_map, Function.comp_apply] at hk hk'
    obtain ⟨m, -, rfl⟩ := hk
    obtain ⟨m', -, heq⟩ := hk'
    exact hne (congrArg Prod.fst heq).symm

/-- The operations of a document are taken one by one, in order, from the members of its paths that describe
one. In a valid document no two of them have the same path and method. -/
theorem operations_extracted (document : Json) :
    List.Forall₂ (Extracts document) ((pathMembers document).filter PathMember.isOperation)
        (operations document) ∧
      (document.Valid → ((operations document).map fun o => (o.path, o.method)).Nodup) := by
  have hextracts : List.Forall₂ (Extracts document)
      ((pathMembers document).filter PathMember.isOperation) (operations document) := by
    have hread := forall₂_filterMap
      (fun m : PathMember => operation? document m.path m.item m.key m.node) (pathMembers document)
    simp only [isSome_operation?] at hread
    rw [operations_eq]
    exact hread.imp fun _ _ => extracts_of_eq_some
  refine ⟨hextracts, fun hvalid => ?_⟩
  have hnames : ((pathMembers document).filter PathMember.isOperation).map (fun m => (m.path, m.key)) =
      (operations document).map fun o => (o.path, o.method) := by
    rw [← List.forall₂_eq_eq_eq, List.forall₂_map_left_iff, List.forall₂_map_right_iff]
    exact hextracts.imp fun m o h => by rw [h.path_eq, h.method_eq]
  rw [← hnames]
  exact (nodup_pathMembers hvalid).sublist (List.filter_sublist.map _)

/-! ## An interface of users -/

/-- A parameter of the path. -/
def userId : Json := .obj [("name", .str "id"), ("in", .str "path")]

/-- A reference to a parameter among the components, and one that leads nowhere. -/
def limits : Json :=
  .arr [.obj [("$ref", .str "#/components/parameters/Limit")],
    .obj [("$ref", .str "#/components/parameters/Offset")]]

/-- The members of the path of a user: two parameters of one name and location and one that is not usable,
an operation with parameters of its own, and a member that is no operation. -/
def userPath : Members :=
  [("parameters", .arr [userId, userId, .str "none"]), ("get", .obj [("parameters", limits)]),
    ("summary", .str "A user.")]

/-- An interface with one path that is an object and one that is not. -/
def usersInterface : Json :=
  .obj [("components", .obj [("parameters", .obj [("Limit", .obj [("name", .str "limit")])])]),
    ("paths", .obj [("/users", .null), ("/users/{id}", .obj userPath)])]

/-- The one operation of the interface of users has the parameter that its list refers to and the one of its
path, and only the latter has to be there. -/
theorem operations_extracted_users :
    usersInterface.Valid ∧
      ((operations usersInterface).map fun o => (o.path, o.method)) = [("/users/{id}", "get")] ∧
      ((operations usersInterface).map fun o => o.parameters.map fun p => (p.key, p.required)) =
        [[(("limit", .query), false), (("id", .path), true)]] ∧
      ((operations usersInterface).map fun o => (o.path, o.method)).Nodup := by
  have hmember {key : String} {value : Json} (h : value.Valid) : (Json.obj [(key, value)]).Valid :=
    .obj (List.nodup_singleton key) (by simpa using h)
  have huser : userId.Valid := .obj (by decide) (by simp [Json.Valid.str])
  have hlist : (Json.arr [userId, userId, .str "none"]).Valid :=
    .arr (by simp [huser, Json.Valid.str])
  have hlimits : limits.Valid := .arr (by simp [hmember, Json.Valid.str])
  have hpath : (Json.obj userPath).Valid :=
    .obj (by decide) (by simp [userPath, hlist, hmember hlimits, Json.Valid.str])
  have hpaths : (Json.obj [("/users", .null), ("/users/{id}", .obj userPath)]).Valid :=
    .obj (by decide) (by simp [hpath, Json.Valid.null])
  have hlimit : (Json.obj [("name", .str "limit")]).Valid := hmember (.str _)
  have hvalid : usersInterface.Valid :=
    .obj (by decide) (by simpa using ⟨hmember (hmember hlimit), hpaths⟩)
  exact ⟨hvalid, rfl, rfl, (operations_extracted usersInterface).2 hvalid⟩

end AgentCompiler.Api
