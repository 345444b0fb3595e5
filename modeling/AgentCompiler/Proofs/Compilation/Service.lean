import AgentCompiler.Proofs.Compilation.Step
import AgentCompiler.Proofs.Gateway.Served

/-!
# How an agent's operations are served

Every operation of an agent is served once: by a tool in its module, or through a route of its dispatch
function. What is registered with the gateway is what is routed.
-/

namespace AgentCompiler.Compilation

open Gateway Provisioning

/-- The target that a request registers. -/
def target? : Request → Option Target
  | .gatewayTarget _ target _ => some target
  | .gateway _ _ | .dispatchEndpoint _ | .managedMemory _ _ _ => none

/-- The routes of a dispatch function; none when there is no function. -/
def routesOf (function : Option Dispatch) : List Route := (function.map (·.routes)).getD []

/-- The operations of an agent become tools, in order. Those of groups that a gateway serves are routed
and registered, and all others stand in the module. -/
structure Serves (gateway : Bool) (a : Agent) (groups inModule : List ToolGroup) (routes : List Route)
    (registered : List Target) : Prop where
  offered : List.Forall₂ (Offers gateway) (operations a.customGroups) (toolsOf groups)
  inModule : toolsOf inModule = (toolsOf groups).filter fun e => !e.1.isProxied gateway
  routed : List.Forall₂ Leads ((toolsOf groups).filter fun e => e.1.isProxied gateway) routes
  keys : advertisedNames registered = routes.map Route.key
  advertised : List.Forall₂ (fun e d => Advertises e.2 d)
    ((toolsOf groups).filter fun e => e.1.isProxied gateway) (registered.flatMap Target.tools)

section

variable {s : Scope} {a : Agent} {groups : List ToolGroup}

/-- The tools that a gateway serves are those of groups with a remote function, or none. -/
theorem filter_isProxied (gateway : Bool) (gs : List ToolGroup) :
    (toolsOf gs).filter (fun e => e.1.isProxied gateway) = if gateway then backed gs else [] := by
  rw [← toolsOf_filter fun g => g.isProxied gateway]
  cases gateway with
  | true => rfl
  | false =>
      have hnone : gs.filter (fun g => g.isProxied false) = [] :=
        List.filter_eq_nil_iff.mpr fun g _ => Bool.false_ne_true
      rw [hnone]
      rfl

/-- Without a plan for a gateway there is nothing to be routed. -/
theorem filter_isProxied_of_none (h : gatewayPlan? s a groups = none) :
    (toolsOf groups).filter (fun e => e.1.isProxied s.primitives.gateway) = [] := by
  rw [filter_isProxied]
  by_cases hon : s.primitives.gateway
  · rw [gatewayPlan?, if_pos hon] at h
    rw [if_pos hon]
    have hroutes := leads_routes groups
    have hempty : (routes groups).isEmpty := by
      by_contra hsome
      exact absurd ((if_neg hsome).symm.trans h) (Option.some_ne_none _)
    rw [List.isEmpty_iff.mp hempty] at hroutes
    exact List.forall₂_nil_right_iff.mp hroutes
  · rw [if_neg hon]

/-- A plan for a gateway routes and registers the tools that it serves. -/
theorem plan_of_some {plan : Gateway.Plan} (h : gatewayPlan? s a groups = some plan) :
    s.primitives.gateway ∧ plan = ⟨.ofAgent a (routes groups), targets groups⟩ := by
  by_cases hon : s.primitives.gateway
  · rw [gatewayPlan?, if_pos hon] at h
    refine ⟨hon, ?_⟩
    by_cases hempty : (routes groups).isEmpty
    · exact absurd ((if_pos hempty).symm.trans h).symm (Option.some_ne_none _)
    · exact (Option.some.inj ((if_neg hempty).symm.trans h)).symm
  · rw [gatewayPlan?, if_neg hon] at h
    exact absurd h.symm (Option.some_ne_none _)

theorem filterMap_target?_serving (plan : Gateway.Plan) (handle : Handle) (functionRef : String) :
    (serving a plan handle functionRef).filterMap target? = plan.targets := by
  rw [serving, List.filterMap_cons_none rfl, List.filterMap_cons_none rfl, List.filterMap_map]
  exact List.filterMap_some

theorem advertises_of_offers {gateway : Bool} {os : List (ActionGroup × Tool.Origin)}
    {ts : List (ToolGroup × Tool)} (h : List.Forall₂ (Offers gateway) os ts) :
    ∀ e ∈ ts, Advertises e.2 (.ofTool e.2) := by
  induction h with
  | nil => exact List.forall_mem_nil _
  | cons hfirst _ ih => exact List.forall_mem_cons.mpr ⟨hfirst.advertised, ih⟩

/-- What an agent's gateway routes and registers, and what it leaves to the module. -/
theorem serves_bindGateway {name : String} {isRoot : Bool} {binding : Option GatewayBinding}
    {t t' : State}
    (hoffered : List.Forall₂ (Offers s.primitives.gateway) (operations a.customGroups) (toolsOf groups))
    (h : Gives (bindGateway s a name isRoot groups) t binding t') :
    ∃ function asked, t'.emitted = t.emitted ++ function.toList.map .dispatch ∧
      t'.requests = t.requests ++ asked ∧
      Serves s.primitives.gateway a groups
        (groups.filter fun g => !g.isProxied s.primitives.gateway) (routesOf function)
        (asked.filterMap target?) := by
  have hmodule := toolsOf_filter (fun g => !g.isProxied s.primitives.gateway) groups
  rcases (gives_bindGateway h).2 with ⟨hnone, -, rfl⟩ | ⟨plan, handle, functionRef, hsome, hasked,
    hemitted⟩
  · have hserved := filter_isProxied_of_none hnone
    refine ⟨none, [], (List.append_nil _).symm, (List.append_nil _).symm, hoffered, hmodule, ?_, rfl,
      ?_⟩
    · rw [hserved]
      exact .nil
    · rw [hserved]
      exact .nil
  · obtain ⟨hon, hplan⟩ := plan_of_some hsome
    have hserved := filter_isProxied s.primitives.gateway groups
    rw [if_pos hon] at hserved
    have hroutes : routesOf (some plan.dispatch) = routes groups := by
      rw [hplan]
      rfl
    have hregistered : (serving a plan handle functionRef).filterMap target? = targets groups := by
      rw [filterMap_target?_serving, hplan]
    refine ⟨some plan.dispatch, serving a plan handle functionRef, hemitted, hasked, hoffered, hmodule,
      ?_, ?_, ?_⟩
    · rw [hserved, hroutes]
      exact leads_routes groups
    · rw [hregistered, hroutes]
      exact advertisedNames_targets groups
    · rw [hregistered, hserved, tools_targets, List.forall₂_map_right_iff, List.forall₂_same]
      intro e he
      rw [backed, toolsOf_filter] at he
      exact advertises_of_offers hoffered e (List.mem_of_mem_filter he)

end

variable {s : Scope} {ancestors : List String} {name : String} {a : Agent}
  {cs : List (Delegation × Definition)} {t t' : State} {binds : Bool}

/-- Every operation of an agent that is compiled is served once, and everything that is registered for
it is routed. The agent leaves its dispatch function and its registrations before its collaborators are
compiled, and its module after them. -/
theorem operations_served (h : Gives (compile s ancestors name (.node a cs)) t binds t') :
    ∃ groups function asked later plan links t₁ t₂,
      Serves s.primitives.gateway a groups plan.groups (routesOf function) (asked.filterMap target?) ∧
      t₁.emitted = t.emitted ++ function.toList.map .dispatch ∧ t₁.requests = t.requests ++ asked ∧
      Gives (compileBelow s (ancestors ++ [a.identity]) (.node a cs)) t₁ links t₂ ∧
      t'.emitted = t₂.emitted ++ [.agentModule plan] ∧ plan.definition = .node a cs ∧
      t'.requests = t₂.requests ++ later ∧ later.filterMap target? = [] := by
  obtain ⟨-, groups, declarations, gateway, links, memory, ps, t₁, t₂, t₃, htools, hgateway, hbelow,
    hmemory, -, rfl, -⟩ := gives_compile h
  obtain ⟨-, registry, hsynthesize, -⟩ := gives_synthesize htools
  obtain ⟨function, asked, hemitted, hrequests, hserves⟩ :=
    serves_bindGateway (offers_synthesize hsynthesize) hgateway
  refine ⟨groups, function, asked, ?_⟩
  rcases gives_bindMemory hmemory with rfl | rfl
  · exact ⟨[], planModule s (.node a cs) name ancestors.isEmpty groups declarations gateway links memory
      ps, links, t₁, t₃, hserves, hemitted, hrequests, hbelow, rfl, rfl, (List.append_nil _).symm, rfl⟩
  · exact ⟨_, planModule s (.node a cs) name ancestors.isEmpty groups declarations gateway links memory
      ps, links, t₁, t₂, hserves, hemitted, hrequests, hbelow, rfl, rfl, rfl, rfl⟩

/-- An agent with a group behind a remote function and one of its own. -/
def clerk : Agent where
  name := "Clerk"
  modelId := "nova"
  prompts := [{ kind := .orchestration, template := .str "Answer the question." }]
  actionGroups :=
    [{ name := "Orders", executor := .function "arn:aws:lambda:eu-west-1:1:function:orders",
       schema := some (.functions [{ name := "find" }]) },
     { name := "Notes", schema := some (.functions [{ name := "add" }]) }]

/-- The scope of a run for the agent with a gateway. -/
def clerkScope : Scope := .ofRoot { gateway := some true } clerk

theorem operations_served_clerk :
    ∃ binds t groups function plan,
      Gives (compile clerkScope [] "clerk" (.node clerk [])) {} binds t ∧
        t.emitted = function.toList.map .dispatch ++ [.agentModule plan] ∧
          Serves true clerk groups plan.groups (routesOf function) (t.requests.filterMap target?) := by
  have hends : ((compile clerkScope [] "clerk" (.node clerk [])).run.run {}).1.isOk := by
    decide +kernel
  rcases gives_or_stops (compile clerkScope [] "clerk" (.node clerk [])) {} with
    ⟨binds, t, h⟩ | ⟨e, t, h⟩
  · obtain ⟨groups, function, asked, later, plan, links, t₁, t₂, hserves, hemitted, hrequests, hbelow,
      hemitted', -, hrequests', htargets⟩ := operations_served h
    -- The agent has no collaborators.
    obtain ⟨-, rfl⟩ := gives_pure.mp hbelow
    refine ⟨binds, t, groups, function, plan, h, ?_, ?_⟩
    · rw [hemitted', hemitted]
      rfl
    · have hregistered : t.requests.filterMap target? = asked.filterMap target? := by
        rw [hrequests', hrequests, List.filterMap_append, htargets, List.append_nil]
        rfl
      rw [hregistered]
      exact hserves
  · rw [h] at hends
    cases hends

end AgentCompiler.Compilation
