import Mathlib.Data.List.Forall2
import AgentCompiler.Gateway.Target
import AgentCompiler.Proofs.Gateway.Keys
import AgentCompiler.Proofs.Schema.Call

/-!
# Tools, routes and targets

Every operation of an agent's groups becomes one tool, in order. Of the groups with a remote function
every tool has a route and is advertised, in the same order, and the name that it is advertised under is
the key of its route.
-/

namespace AgentCompiler.Gateway

open Tool Schema

/-! ## Tools of a synthesis -/

/-- The operations of groups, each with its group. -/
def operations (groups : List ActionGroup) : List (ActionGroup × Origin) :=
  groups.flatMap fun g => (origins g).map fun o => (g, o)

/-- The tools of groups, each with its group. -/
def toolsOf (gs : List ToolGroup) : List (ToolGroup × Tool) :=
  gs.flatMap fun g => g.tools.map fun t => (g, t)

theorem toolsOf_cons (g : ToolGroup) (gs : List ToolGroup) :
    toolsOf (g :: gs) = (g.tools.map fun t => (g, t)) ++ toolsOf gs := rfl

/-- The tools of some of the groups. -/
theorem toolsOf_filter (p : ToolGroup → Bool) (gs : List ToolGroup) :
    toolsOf (gs.filter p) = (toolsOf gs).filter fun e => p e.1 := by
  induction gs with
  | nil => rfl
  | cons g gs ih =>
      rw [toolsOf_cons, List.filter_append, ← ih]
      by_cases hp : p g
      · have hall : (g.tools.map fun t => (g, t)).filter (fun e => p e.1) = g.tools.map fun t => (g, t) := by
          simp [List.filter_eq_self, hp]
        rw [List.filter_cons_of_pos hp, toolsOf_cons, hall]
      · have hnone : (g.tools.map fun t => (g, t)).filter (fun e => p e.1) = [] := by
          simp [List.filter_eq_nil_iff, hp]
        rw [List.filter_cons_of_neg hp, hnone, List.nil_append]

theorem forall₂_flatMap {α β γ δ : Type} {R : γ → δ → Prop} {f : α → List γ} {g : β → List δ}
    {as : List α} {bs : List β} (h : List.Forall₂ (fun a b => List.Forall₂ R (f a) (g b)) as bs) :
    List.Forall₂ R (as.flatMap f) (bs.flatMap g) := by
  induction h with
  | nil => exact .nil
  | cons hab _ ih =>
      rw [List.flatMap_cons, List.flatMap_cons]
      exact List.rel_append hab ih

/-- The input that a descriptor advertises: every property, and all that is required. -/
structure Advertises (t : Tool) (d : Descriptor) : Prop where
  name : d.name = t.name
  description : d.description = t.description
  properties : t.inputSchema.getMembers? "properties" =
    some (d.properties.map fun (k, ms) => (k, .obj ms))
  required : t.inputSchema.getItems? "required" = some (d.required.map .str)

/-- A tool offers an operation under the name of its group. A gateway serves it exactly when the group
has a remote function. -/
structure Offers (gateway : Bool) (e : ActionGroup × Origin) (e' : ToolGroup × Tool) : Prop where
  group : e'.1.name = e.1.name
  toolGroup : e'.2.group = e.1.name
  operation : RoutedOperation.ofTool e'.2.operation = .ofOrigin e.2
  functionRef : e'.1.functionRef = e.1.functionRef?
  proxied : e'.1.isProxied gateway ↔
    gateway ∧ ∃ reference, e.1.executor = .function reference ∧ reference ≠ ""
  advertised : Advertises e'.2 (.ofTool e'.2)

/-! ## Advertised inputs -/

theorem filterMap_objects {ms : Members} (h : ∀ e ∈ ms, ∃ inner, e.2 = .obj inner) :
    (ms.filterMap fun (k, v) => v.members?.map (k, ·)).map (fun (k, inner) => (k, Json.obj inner)) =
      ms := by
  induction ms with
  | nil => rfl
  | cons e es ih =>
      obtain ⟨k, v⟩ := e
      obtain ⟨inner, rfl⟩ : ∃ inner, v = .obj inner := h _ List.mem_cons_self
      have hrest := ih fun e' he' => h e' (List.mem_cons_of_mem _ he')
      exact congrArg ((k, Json.obj inner) :: ·) hrest

theorem filterMap_strings (names : List String) :
    (names.map Json.str).filterMap Json.string? = names := by
  rw [List.filterMap_map]
  exact List.filterMap_some

/-- A descriptor leaves nothing out of an object schema whose properties are objects. -/
theorem advertises_ofTool {t : Tool} {properties : Members} {required : List String}
    (hschema : t.inputSchema = objectSchema properties required)
    (hobjects : ∀ e ∈ properties, ∃ ms, e.2 = .obj ms) : Advertises t (.ofTool t) := by
  have hproperties : t.inputSchema.getMembers? "properties" = some properties := by
    rw [hschema]
    rfl
  have hrequired : t.inputSchema.getItems? "required" = some (required.map .str) := by
    rw [hschema]
    rfl
  refine ⟨rfl, rfl, ?_, ?_⟩
  · rw [hproperties, Descriptor.ofTool, hproperties]
    exact congrArg some (filterMap_objects hobjects).symm
  · rw [hrequired, Descriptor.ofTool, hrequired, Option.getD_some, filterMap_strings]

/-- The input of a request is an object of objects. -/
theorem requestSchema_spec (components : Members) (o : Api.Operation) :
    ∃ properties required, requestSchema components o = objectSchema properties required ∧
      ∀ e ∈ properties, ∃ ms, e.2 = .obj ms := by
  refine ⟨_, _, rfl, fun e he => ?_⟩
  rcases List.mem_append.mp he with he | he
  · split at he
    · cases he
    · rw [List.mem_singleton.mp he]
      exact ⟨_, rfl⟩
  · rw [Option.mem_toList, Option.map_eq_some_iff] at he
    obtain ⟨media, -, rfl⟩ := he
    exact ⟨_, rfl⟩

/-- The input of a function is an object of objects. -/
theorem functionSchema_spec (f : Function) :
    ∃ properties required, functionSchema f = objectSchema properties required ∧
      ∀ e ∈ properties, ∃ ms, e.2 = .obj ms := by
  refine ⟨_, _, rfl, fun e he => ?_⟩
  obtain ⟨p, -, rfl⟩ := List.mem_map.mp (Table.mem_of_mem_ofEntries he)
  exact ⟨_, rfl⟩

theorem build_advertises {g : ActionGroup} {proxied : Bool} {name : String} {origin : Origin}
    {t : Tool} {r r' : Registry} (h : Tool.build g proxied name origin r = some (t, r')) :
    t.group = g.name ∧ Advertises t (.ofTool t) := by
  obtain ⟨⟨input, r₁⟩, -, ht⟩ := Option.bind_eq_some_iff.mp h
  cases origin with
  | request document o =>
      cases ht
      obtain ⟨properties, required, hschema, hobjects⟩ :=
        requestSchema_spec (Schema.components document) o
      exact ⟨rfl, advertises_ofTool hschema hobjects⟩
  | function f =>
      cases ht
      obtain ⟨properties, required, hschema, hobjects⟩ := functionSchema_spec f
      exact ⟨rfl, advertises_ofTool hschema hobjects⟩

/-! ## One tool for each operation -/

theorem isProxied_iff {g : ActionGroup} {tg : ToolGroup} (h : tg.functionRef = g.functionRef?)
    (gateway : Bool) : tg.isProxied gateway ↔
      gateway ∧ ∃ reference, g.executor = .function reference ∧ reference ≠ "" := by
  rw [ToolGroup.isProxied, h, Bool.and_eq_true]
  refine and_congr_right fun _ => ?_
  unfold ActionGroup.functionRef?
  split
  · next reference hexecutor =>
      have hempty : reference.isEmpty ↔ reference = "" := String.isEmpty_iff
      split
      · next h => simp [hexecutor, hempty.mp h]
      · next h => simp [hexecutor, mt hempty.mpr h]
  · next hexecutor => simp [hexecutor]

theorem offers_build {gateway : Bool} {p : Planned} {g : ToolGroup} {r r' : Registry}
    (h : p.build gateway r = some (g, r')) :
    List.Forall₂ (Offers gateway) (p.tools.map fun e => (p.group, e.2))
      (g.tools.map fun t => (g, t)) := by
  obtain ⟨⟨tools, r₁⟩, htools, hg⟩ := Option.bind_eq_some_iff.mp h
  cases hg
  rw [List.forall₂_map_left_iff, List.forall₂_map_right_iff]
  refine mapM_forall₂ (fun e r t r' ht => ?_) htools
  obtain ⟨-, hoperation⟩ := build_spec ht
  obtain ⟨hgroup, hadvertises⟩ := build_advertises ht
  exact ⟨rfl, hgroup, hoperation, rfl, isProxied_iff rfl gateway, hadvertises⟩

/-- Every operation becomes exactly one tool, in order. -/
theorem offers_synthesize {groups : List ActionGroup} {gateway : Bool} {gs : List ToolGroup}
    {r r' : Registry} (h : synthesize groups gateway r = some (gs, r')) :
    List.Forall₂ (Offers gateway) (operations groups) (toolsOf gs) := by
  have hoperations : (plan groups).flatMap (fun p => p.tools.map fun e => (p.group, e.2)) =
      operations groups := by
    have hplan := congrArg (List.flatMap fun e => e.2.map fun o => (e.1, o)) (map_plan groups)
    rw [List.flatMap_map, List.flatMap_map] at hplan
    simp only [List.map_map] at hplan
    exact hplan
  rw [← hoperations]
  exact forall₂_flatMap (mapM_forall₂ (fun p r g r' hp => offers_build hp) h)

/-! ## Routes -/

/-- A route leads to a tool: to the operation of its group, at the remote function of the group. -/
structure Leads (e : ToolGroup × Tool) (route : Route) : Prop where
  key : route.key = e.1.space ++ "___" ++ e.2.name
  group : route.group = e.1.name
  operation : route.operation = .ofTool e.2.operation
  functionRef : e.1.functionRef = some route.functionRef

/-- The tools of groups with a remote function. -/
def backed (gs : List ToolGroup) : List (ToolGroup × Tool) :=
  toolsOf (gs.filter fun g => g.functionRef.isSome)

theorem backed_cons_of_none {g : ToolGroup} (h : g.functionRef = none) (gs : List ToolGroup) :
    backed (g :: gs) = backed gs := by
  rw [backed, List.filter_cons_of_neg (by simp [h])]
  rfl

theorem backed_cons_of_some {g : ToolGroup} {reference : String} (h : g.functionRef = some reference)
    (gs : List ToolGroup) : backed (g :: gs) = (g.tools.map fun t => (g, t)) ++ backed gs := by
  rw [backed, List.filter_cons_of_pos (by simp [h])]
  rfl

/-- The tools of groups with a remote function have one route each, in order. -/
theorem leads_routes (gs : List ToolGroup) : List.Forall₂ Leads (backed gs) (routes gs) := by
  induction gs with
  | nil => exact .nil
  | cons g gs ih =>
      rw [routes, List.flatMap_cons, groupRoutes]
      cases href : g.functionRef with
      | none =>
          rw [backed_cons_of_none href]
          exact ih
      | some reference =>
          rw [backed_cons_of_some href]
          refine List.rel_append ?_ ih
          rw [List.forall₂_map_left_iff, List.forall₂_map_right_iff, List.forall₂_same]
          exact fun t _ => ⟨rfl, rfl, rfl, href⟩

/-- What the targets of a group and of further ones hold, together. -/
theorem flatMap_targets_cons {β : Type} {g : ToolGroup} {f : Target → List β}
    (hf : f ⟨g.space, g.name, []⟩ = []) (gs : List ToolGroup) :
    (targets (g :: gs)).flatMap f =
      (if g.functionRef.isSome then f ⟨g.space, g.name, g.tools.map .ofTool⟩ else []) ++
        (targets gs).flatMap f := by
  rw [targets, List.filterMap_cons, target?]
  cases g.functionRef with
  | none => rfl
  | some reference =>
      cases htools : g.tools with
      | nil =>
          -- A group without tools is no target.
          rw [List.map_nil, hf]
          rfl
      | cons t ts => rfl

/-- The targets advertise the tools of groups with a remote function, in order. -/
theorem tools_targets (gs : List ToolGroup) :
    (targets gs).flatMap Target.tools = (backed gs).map fun e => .ofTool e.2 := by
  induction gs with
  | nil => rfl
  | cons g gs ih =>
      rw [flatMap_targets_cons rfl, ih]
      cases href : g.functionRef with
      | none =>
          rw [backed_cons_of_none href]
          rfl
      | some reference =>
          rw [backed_cons_of_some href, List.map_append, List.map_map]
          rfl

/-- The names of the advertised tools behind those of their targets. -/
def advertisedNames (ts : List Target) : List String :=
  ts.flatMap fun target => target.tools.map fun d => target.name ++ "___" ++ d.name

/-- The advertised names are the keys of the routes. -/
theorem advertisedNames_targets (gs : List ToolGroup) :
    advertisedNames (targets gs) = (routes gs).map Route.key := by
  unfold advertisedNames
  induction gs with
  | nil => rfl
  | cons g gs ih =>
      rw [flatMap_targets_cons rfl, ih, routes, routes, List.flatMap_cons, List.map_append, groupRoutes]
      cases g.functionRef with
      | none => rfl
      | some reference =>
          simp only [List.map_map]
          rfl

end AgentCompiler.Gateway
