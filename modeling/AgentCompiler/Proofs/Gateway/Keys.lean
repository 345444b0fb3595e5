import Mathlib.Data.Set.Function
import AgentCompiler.Gateway.Routing
import AgentCompiler.Proofs.Tool.Plan

/-!
# Dispatch keys

Behind a gateway every operation of a group with a remote function has one route. Its key is short and
plain, and no two routes have one key unless two names that were cut have one digest.
-/

namespace AgentCompiler.Gateway

open Tool Schema

/-- The operation that a tool is made from, as it is routed. -/
def RoutedOperation.ofOrigin : Origin → RoutedOperation
  | .request _ o => request o.path (.ofList (o.method.toList.map Char.toUpper))
  | .function f => function f.name

/-- The routes of a planned group. -/
def plannedRoutes (p : Planned) : List Route :=
  match p.group.functionRef? with
  | none => []
  | some reference => p.tools.map fun (name, origin) =>
    ⟨Name.dispatchKey p.space (Name.prune name (p.budget true)), p.group.name,
      .ofOrigin origin, reference, functionRegion reference⟩

/-! ## Routes of a synthesis -/

/-- What every step of a list computes whatever the registry is computed for the list. -/
theorem mapM_map_eq {α β γ : Type} {f : α → Mapping β} {g : β → γ} {h : α → γ} {as : List α}
    {bs : List β} {r r' : Registry}
    (hf : ∀ a r b r', f a r = some (b, r') → g b = h a) (hrun : as.mapM f r = some (bs, r')) :
    bs.map g = as.map h := by
  induction as generalizing bs r with
  | nil =>
      cases hrun
      rfl
  | cons a as ih =>
      rw [List.mapM_cons] at hrun
      obtain ⟨⟨b, r₁⟩, hb, hrest⟩ := Option.bind_eq_some_iff.mp hrun
      obtain ⟨⟨bs', r₂⟩, hbs, hlist⟩ := Option.bind_eq_some_iff.mp hrest
      cases hlist
      rw [List.map_cons, List.map_cons, hf a r b r₁ hb, ih hbs]

/-- A tool has the name that it is built under, and the operation that it is made from. -/
theorem build_spec {g : ActionGroup} {proxied : Bool} {name : String} {origin : Origin}
    {t : Tool} {r r' : Registry} (h : Tool.build g proxied name origin r = some (t, r')) :
    t.name = name ∧ RoutedOperation.ofTool t.operation = .ofOrigin origin := by
  obtain ⟨⟨input, r₁⟩, -, ht⟩ := Option.bind_eq_some_iff.mp h
  cases origin <;> cases ht <;> exact ⟨rfl, rfl⟩

/-- A group has the routes that are planned for it. -/
theorem groupRoutes_build {p : Planned} {g : ToolGroup} {r r' : Registry}
    (h : p.build true r = some (g, r')) : groupRoutes g = plannedRoutes p := by
  obtain ⟨⟨tools, r₁⟩, htools, hg⟩ := Option.bind_eq_some_iff.mp h
  cases hg
  rw [groupRoutes, plannedRoutes]
  cases hreference : p.group.functionRef? with
  | none => rfl
  | some reference =>
      refine mapM_map_eq (fun e r t r' ht => ?_) htools
      obtain ⟨hname, hoperation⟩ := build_spec ht
      simp only [hname, hoperation]

/-- The routes of a synthesis are those that are planned. -/
theorem routes_synthesize {groups : List ActionGroup} {gs : List ToolGroup} {r r' : Registry}
    (h : synthesize groups true r = some (gs, r')) :
    routes gs = (plan groups).flatMap plannedRoutes := by
  have hmap : gs.map groupRoutes = (plan groups).map plannedRoutes :=
    mapM_map_eq (fun p r g r' hp => groupRoutes_build hp) h
  rw [routes, List.flatMap_def, hmap, List.flatMap_def]

/-! ## Names of tools -/

/-- The method of an operation is one of the known ones. -/
theorem method_mem_methods {document : Json} {o : Api.Operation} (h : o ∈ Api.operations document) :
    o.method ∈ Api.methods := by
  obtain ⟨⟨path, item⟩, -, ho⟩ := List.mem_flatMap.mp h
  cases item with
  | obj members =>
      obtain ⟨⟨method, node⟩, -, ho⟩ := List.mem_filterMap.mp ho
      simp only [Api.operation?] at ho
      split at ho
      · cases ho
      · next hmethod =>
          obtain ⟨op, -, ho⟩ := Option.bind_eq_some_iff.mp ho
          cases ho
          simpa using hmethod
  | null | bool _ | num _ | str _ | arr _ => cases ho

/-- The name of a tool is made of the characters of names. -/
theorem isKeyChar_of_mem_rawNames {groups : List ActionGroup} {name : String}
    (h : name ∈ rawNames groups) : ∀ c ∈ name.toList, Name.isKeyChar c := by
  obtain ⟨g, -, hg⟩ := List.mem_flatMap.mp h
  obtain ⟨origin, horigin, rfl⟩ := List.mem_map.mp hg
  have hsnake (s : String) : ∀ c ∈ (Name.snake s).toList, Name.isKeyChar c :=
    (Name.joined_snake s).1.chars
  have hunder : ∀ c ∈ ("_" : String).toList, Name.isKeyChar c := List.all_eq_true.mp (by decide)
  intro c hc
  cases origin with
  | request document o =>
      have hmethod : ∀ m ∈ Api.methods, m.toList.all Name.isKeyChar := by decide
      obtain ⟨-, ho⟩ := request_mem_origins horigin
      simp only [Origin.rawName, String.toList_append, List.mem_append] at hc
      rcases hc with (((hc | hc) | hc) | hc) | hc
      · exact hsnake _ c hc
      · exact hunder c hc
      · exact hsnake _ c hc
      · exact hunder c hc
      · exact List.all_eq_true.mp (hmethod _ (method_mem_methods ho)) c hc
  | function f =>
      simp only [Origin.rawName, String.toList_append, List.mem_append] at hc
      rcases hc with (hc | hc) | hc
      · exact hsnake _ c hc
      · exact hunder c hc
      · exact hsnake _ c hc

/-- The name of a planned tool is made of the characters of names. -/
theorem isKeyChar_of_mem_tools {groups : List ActionGroup} {p : Planned} (hp : p ∈ plan groups)
    {e : String × Origin} (he : e ∈ p.tools) : ∀ c ∈ e.1.toList, Name.isKeyChar c := by
  have hmem : e.1 ∈ Name.distinct (rawNames groups) := by
    rw [← flatMap_names_plan]
    exact List.mem_flatMap.mpr ⟨p, hp, List.mem_map.mpr ⟨e, he, rfl⟩⟩
  exact Name.isKeyChar_of_mem_distinct (fun m hm => isKeyChar_of_mem_rawNames hm) hmem

/-- The namespace of a planned group has the shape of one. -/
theorem isSpace_of_mem_plan {groups : List ActionGroup} {p : Planned} (hp : p ∈ plan groups) :
    Name.IsSpace p.space := by
  have hmem : p.space ∈ Name.namespaces (groups.map (·.name)) := by
    rw [← map_space_plan]
    exact List.mem_map.mpr ⟨p, hp, rfl⟩
  exact Name.isSpace_of_mem_namespaces hmem

/-! ## Distinct keys -/

/-- The key of a planned route is made of the namespace of its group and the cut name of a tool. -/
theorem mem_keys_plannedRoutes {p : Planned} {key : String}
    (h : key ∈ (plannedRoutes p).map Route.key) :
    p.isProxied true ∧
      ∃ e ∈ p.tools, key = Name.dispatchKey p.space (Name.prune e.1 (p.budget true)) := by
  unfold plannedRoutes at h
  split at h
  · cases h
  · next reference hreference =>
      rw [List.map_map] at h
      obtain ⟨e, he, rfl⟩ := List.mem_map.mp h
      exact ⟨by rw [Planned.isProxied, hreference]; rfl, e, he, rfl⟩

/-- The names that are cut in a synthesis behind a gateway: those of groups and those of tools. -/
def cutNames (groups : List ActionGroup) : List String :=
  (Name.distinct ((groups.map (·.name)).map Name.snake)).filter (Name.namespaceLength < ·.length) ++
    (plan groups).flatMap fun p => (p.tools.map Prod.fst).filter (p.budget true < ·.length)

section

variable {groups : List ActionGroup}
  (hdigest : Set.InjOn Name.digest {name | name ∈ cutNames groups})
include hdigest

/-- The groups have pairwise distinct namespaces. -/
theorem nodup_spaces : ((plan groups).map Planned.space).Nodup := by
  rw [map_space_plan]
  refine Name.nodup_namespaces fun m hm n hn hlong hlong' heq => hdigest ?_ ?_ heq
  · exact List.mem_append_left _ (List.mem_filter.mpr ⟨hm, decide_eq_true hlong⟩)
  · exact List.mem_append_left _ (List.mem_filter.mpr ⟨hn, decide_eq_true hlong'⟩)

/-- The routes of one group have pairwise distinct keys. -/
theorem nodup_keys_plannedRoutes {p : Planned} (hp : p ∈ plan groups) :
    ((plannedRoutes p).map Route.key).Nodup := by
  unfold plannedRoutes
  split
  · exact List.nodup_nil
  have hnames : (p.tools.map Prod.fst).Nodup := by
    have hall := Name.nodup_distinct (rawNames groups)
    rw [← flatMap_names_plan, List.nodup_flatMap] at hall
    exact hall.1 p hp
  have hkeys : ((p.tools.map Prod.fst).map fun name =>
      Name.dispatchKey p.space (Name.prune name (p.budget true))).Nodup := by
    refine hnames.map_on fun m hm n hn heq => ?_
    by_contra hne
    have hspace := isSpace_of_mem_plan hp
    refine Name.prune_ne hne (fun hlong hlong' hsame => hne (hdigest ?_ ?_ hsame))
      (Name.dispatchKey_injective hspace hspace heq).2
    · exact List.mem_append_right _ (List.mem_flatMap.mpr
        ⟨p, hp, List.mem_filter.mpr ⟨hm, decide_eq_true hlong⟩⟩)
    · exact List.mem_append_right _ (List.mem_flatMap.mpr
        ⟨p, hp, List.mem_filter.mpr ⟨hn, decide_eq_true hlong'⟩⟩)
  rw [List.map_map] at hkeys ⊢
  exact hkeys

/-- All routes have pairwise distinct keys. -/
theorem nodup_keys : (((plan groups).flatMap plannedRoutes).map Route.key).Nodup := by
  rw [List.map_flatMap, List.nodup_flatMap]
  refine ⟨fun p hp => nodup_keys_plannedRoutes hdigest hp, ?_⟩
  have hspaces := nodup_spaces hdigest
  rw [List.Nodup, List.pairwise_map] at hspaces
  -- A key that two groups share would have the namespaces of both in it.
  refine hspaces.imp_of_mem fun hp hq hne => ?_
  intro key hkey hkey'
  obtain ⟨-, e, -, rfl⟩ := mem_keys_plannedRoutes hkey
  obtain ⟨-, e', -, heq⟩ := mem_keys_plannedRoutes hkey'
  exact hne (Name.dispatchKey_injective (isSpace_of_mem_plan hp) (isSpace_of_mem_plan hq) heq).1

end

/-! ## The routing table -/

/-- Where a route leads: the group, the operation, and the remote function with its region. -/
def Route.target (r : Route) : String × RoutedOperation × String × String :=
  (r.group, r.operation, r.functionRef, r.region)

/-- Where calls have to be routed for operations of a group: nowhere without a remote function. -/
def backedTargets (g : ActionGroup) (os : List Origin) :
    List (String × RoutedOperation × String × String) :=
  match g.functionRef? with
  | none => []
  | some reference => os.map fun o => (g.name, .ofOrigin o, reference, functionRegion reference)

theorem map_target_plannedRoutes (p : Planned) :
    (plannedRoutes p).map Route.target = backedTargets p.group (p.tools.map Prod.snd) := by
  unfold plannedRoutes backedTargets
  split
  · rfl
  · rw [List.map_map, List.map_map]
    rfl

/-- The planned routes lead to every operation of a group with a remote function, once and in order. -/
theorem map_target_plan (groups : List ActionGroup) :
    ((plan groups).flatMap plannedRoutes).map Route.target =
      groups.flatMap fun g => backedTargets g (origins g) := by
  have hplan := congrArg (List.flatMap fun e => backedTargets e.1 e.2) (map_plan groups)
  rw [List.flatMap_map, List.flatMap_map] at hplan
  rw [List.map_flatMap, ← hplan]
  simp only [map_target_plannedRoutes]

/-- The keys of planned routes are short and plain. -/
theorem key_spec {groups : List ActionGroup} {key : String}
    (h : key ∈ ((plan groups).flatMap plannedRoutes).map Route.key) :
    key.length ≤ Name.maxLength ∧ ∀ c ∈ key.toList, Name.isKeyChar c := by
  rw [List.map_flatMap] at h
  obtain ⟨p, hp, hkey⟩ := List.mem_flatMap.mp h
  obtain ⟨hproxied, e, he, rfl⟩ := mem_keys_plannedRoutes hkey
  have hspace := isSpace_of_mem_plan hp
  refine ⟨?_, ?_⟩
  · rw [Planned.budget, if_pos hproxied]
    exact Name.length_dispatchKey_le hspace e.1
  · exact Name.isKeyChar_of_mem_dispatchKey hspace
      (Name.isKeyChar_of_mem_prune (isKeyChar_of_mem_tools hp he))

/-- Behind a gateway every operation of a group with a remote function has exactly one route. Its key
has at most 64 lower-case letters, digits and underscores, and where no two of the names that were cut
have one digest the keys are pairwise distinct, so that the table has a member for each route. -/
theorem routes_unique {groups : List ActionGroup} {gs : List ToolGroup} {r r' : Registry}
    (h : synthesize groups true r = some (gs, r'))
    (hdigest : Set.InjOn Name.digest {name | name ∈ cutNames groups}) :
    (routes gs).map Route.target = (groups.flatMap fun g => backedTargets g (origins g)) ∧
      (∀ route ∈ routes gs, route.key.length ≤ 64 ∧ ∀ c ∈ route.key.toList, Name.isKeyChar c) ∧
      ((routes gs).map Route.key).Nodup ∧
      routingTable (routes gs) = .obj ((routes gs).map fun route => (route.key, route.toJson)) := by
  have hroutes := routes_synthesize h
  have hkeys : ((routes gs).map Route.key).Nodup := by
    rw [hroutes]
    exact nodup_keys hdigest
  refine ⟨?_, fun route hroute => ?_, hkeys, ?_⟩
  · rw [hroutes]
    exact map_target_plan groups
  · rw [hroutes] at hroute
    exact key_spec (List.mem_map.mpr ⟨route, hroute, rfl⟩)
  · rw [routingTable, Table.ofEntries_of_nodup]
    rw [List.map_map]
    exact hkeys

/-- Two groups with remote functions whose names are cleaned alike. One function has a long name. -/
def twins : List ActionGroup :=
  [{ name := "Pets", executor := .function "arn:aws:lambda:eu-west-1:1:function:pets",
     schema := some (.functions [{ name := "find" }]) },
   { name := "pets", executor := .function "arn:aws:lambda:eu-west-1:1:function:strays",
     schema := some (.functions [{ name := "find" },
       { name := "find every stray that was seen in the last week near the harbour" }]) }]

theorem cutNames_twins : cutNames twins =
    ["pets_find_every_stray_that_was_seen_in_the_last_week_near_the_harbour"] := by
  decide

theorem routes_unique_twins : ∃ gs r, synthesize twins true {} = some (gs, r) ∧
    (routes gs).map Route.target = (twins.flatMap fun g => backedTargets g (origins g)) ∧
      (∀ route ∈ routes gs, route.key.length ≤ 64 ∧ ∀ c ∈ route.key.toList, Name.isKeyChar c) ∧
      ((routes gs).map Route.key).Nodup ∧
      routingTable (routes gs) = .obj ((routes gs).map fun route => (route.key, route.toJson)) := by
  have hdigest : Set.InjOn Name.digest {name | name ∈ cutNames twins} := by
    rw [cutNames_twins]
    intro m hm n hn _
    rw [List.mem_singleton.mp hm, List.mem_singleton.mp hn]
  have hends : (synthesize twins true {}).isSome := rfl
  obtain ⟨⟨gs, r⟩, hrun⟩ := Option.isSome_iff_exists.mp hends
  exact ⟨gs, r, hrun, routes_unique hrun hdigest⟩

end AgentCompiler.Gateway
