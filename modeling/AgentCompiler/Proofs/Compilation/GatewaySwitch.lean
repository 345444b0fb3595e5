import AgentCompiler.Proofs.Compilation.Alike
import AgentCompiler.Proofs.Compilation.DispatchFile

/-!
# Switching gateways on

Whether tools are served through gateways matters only to agents that have an operation behind a remote
function. A group without operations may have such a function, and one with operations may have none:
when all groups that a run visits are of these kinds, the switch has no influence.
-/

namespace AgentCompiler

/-! ## Agents without operations behind remote functions -/

theorem Agent.isBacked_eq_false_iff {a : Agent} :
    a.isBacked = false ↔ ∀ g ∈ a.customGroups, g.functionRef?.isSome → Tool.origins g = [] := by
  rw [isBacked, Gateway.operations, List.any_flatMap, List.any_eq_false]
  refine forall₂_congr fun g _ => ?_
  cases Tool.origins g with
  | nil => simp
  | cons o os => simp +contextual

namespace Tool

variable {groups : List ActionGroup}

/-- A group is built alike when a gateway would serve none of its tools. -/
theorem Planned.build_eq {p : Planned} (h : p.group.functionRef?.isSome → p.tools = [])
    (gateway gateway' : Bool) : p.build gateway = p.build gateway' := by
  by_cases hbacked : p.group.functionRef?.isSome
  · rw [build, build, h hbacked]
    rfl
  · have hlocal (on : Bool) : p.isProxied on = false := by
      rw [isProxied, Bool.eq_false_iff.mpr hbacked, Bool.and_false]
    simp only [build, budget, hlocal]

theorem mapM_build_eq {ps : List Planned} (h : ∀ p ∈ ps, p.group.functionRef?.isSome → p.tools = [])
    (gateway gateway' : Bool) : ps.mapM (·.build gateway) = ps.mapM (·.build gateway') := by
  induction ps with
  | nil => rfl
  | cons p ps ih =>
      rw [List.forall_mem_cons] at h
      rw [List.mapM_cons, List.mapM_cons, Planned.build_eq h.1 gateway gateway', ih h.2]

/-- The tools are the same ones with a gateway and without, when no operation is behind a remote
function. -/
theorem synthesize_eq (h : ∀ g ∈ groups, g.functionRef?.isSome → origins g = [])
    (gateway gateway' : Bool) : synthesize groups gateway = synthesize groups gateway' := by
  refine mapM_build_eq (fun p hp hbacked => ?_) gateway gateway'
  obtain ⟨hgroup, htools⟩ := mem_plan hp
  rw [h _ hgroup hbacked] at htools
  exact List.eq_nil_iff_forall_not_mem.mpr fun tool htool => absurd (htools tool htool) List.not_mem_nil

end Tool

namespace Gateway

variable {groups : List ToolGroup}

/-- Without routes, no group that a gateway could serve has tools. -/
theorem tools_eq_nil_of_routes (h : routes groups = []) {g : ToolGroup} (hg : g ∈ groups)
    (hbacked : g.functionRef.isSome) : g.tools = [] := by
  have hnone := List.flatMap_eq_nil_iff.mp h g hg
  obtain ⟨reference, href⟩ := Option.isSome_iff_exists.mp hbacked
  rw [groupRoutes, href] at hnone
  exact List.map_eq_nil_iff.mp hnone

/-- Without routes, all tools stand in the module. -/
theorem tools_filter_of_routes (h : routes groups = []) (gateway : Bool) :
    (groups.filter fun g => !g.isProxied gateway).flatMap (·.tools) = groups.flatMap (·.tools) := by
  induction groups with
  | nil => rfl
  | cons g groups ih =>
      have hrest : routes groups = [] := (List.append_eq_nil_iff.mp h).2
      rw [List.filter_cons, List.flatMap_cons, ← ih hrest]
      split
      · rw [List.flatMap_cons]
      · next hproxied =>
          have hbacked : g.functionRef.isSome := by
            simp only [ToolGroup.isProxied, Bool.not_eq_true', Bool.not_eq_false, Bool.and_eq_true]
              at hproxied
            exact hproxied.2
          rw [tools_eq_nil_of_routes h List.mem_cons_self hbacked, List.nil_append]

end Gateway

/-! ## Agents that a run visits -/

namespace Definition

/-- A run visits an agent when the path to it repeats no identity. -/
def Visits (d e : Definition) : Prop := ∃ ds, d.Path (ds ++ [e]) ∧ (identities (ds ++ [e])).Nodup

/-- Along a path down, every agent stands behind those below it. -/
theorem Path.sublist_postorder {d : Definition} {ds : List Definition} (h : d.Path ds) :
    ds.reverse.Sublist d.postorder := by
  induction h with
  | here d =>
      rw [postorder_eq, List.reverse_singleton]
      exact List.sublist_append_right _ _
  | @through d c delegation ds collaborates mem path ih =>
      have hcalled : (delegation, c) ∈ d.called := by
        rw [called, if_pos collaborates]
        exact mem
      have hbelow : c.postorder.Sublist (d.called.flatMap fun c => c.2.postorder) :=
        List.sublist_flatten_of_mem (List.mem_map_of_mem hcalled)
      rw [postorder_eq, List.reverse_cons]
      exact (ih.trans hbelow).append (List.Sublist.refl [d])

theorem Path.mem_postorder {d e : Definition} {ds : List Definition} (h : d.Path ds) (he : e ∈ ds) :
    e ∈ d.postorder :=
  h.sublist_postorder.subset (List.mem_reverse.mpr he)

/-- No path repeats an identity when the agents that are called have different ones. -/
theorem Path.nodup_identities {d : Definition} {ds : List Definition} (h : d.Path ds)
    (hnodup : (identities d.postorder).Nodup) : (identities ds).Nodup := by
  rw [← List.nodup_reverse, identities, ← List.map_reverse]
  exact hnodup.sublist (h.sublist_postorder.map _)

/-- A run visits only agents that are called. -/
theorem Visits.mem_postorder {d e : Definition} (h : d.Visits e) : e ∈ d.postorder := by
  obtain ⟨ds, hpath, -⟩ := h
  exact hpath.mem_postorder (List.mem_append_right _ (List.mem_singleton_self _))

end Definition

namespace Compilation

open Definition

variable {s : Scope} {a : Agent}

/-- The scope with another decision about gateways. -/
def Scope.switched (s : Scope) (gateway : Option Bool) (on : Bool) : Scope where
  options := { s.options with gateway := gateway }
  primitives := { s.primitives with gateway := on }

/-- Without routes nothing is bound to a gateway. -/
theorem bindGateway_of_routes {groups : List ToolGroup} (h : Gateway.routes groups = []) (name : String)
    (isRoot : Bool) : bindGateway s a name isRoot groups = pure none := by
  have hplan : Gateway.plan? a groups = none := by
    rw [Gateway.plan?, h]
    rfl
  rw [bindGateway, hplan]
  split
  · rfl
  · rfl

/-- The tools of an agent without operations behind remote functions have no routes. -/
theorem routes_of_gives (h : a.isBacked = false) {t t' : State} {groups : List ToolGroup}
    {declarations : List Declaration} (htools : Gives (synthesize s a) t (groups, declarations) t') :
    Gateway.routes groups = [] := by
  obtain ⟨-, registry, hsynthesize, -⟩ := gives_synthesize htools
  by_contra hroutes
  rw [(routes_ne_nil_iff hsynthesize).mp hroutes] at h
  cases h

/-- The parts of an agent without operations behind remote functions do not depend on the switch. -/
theorem partsAlike_switched {d : Definition} (h : d.agent.isBacked = false) (gateway : Option Bool)
    (on : Bool) : PartsAlike s (s.switched gateway on) d d where
  identity := rfl
  name := rfl
  tools := by
    rw [synthesize, Tool.synthesize_eq (Agent.isBacked_eq_false_iff.mp h) _ s.primitives.gateway]
    rfl
  gateway := by
    intro t groups declarations htools name isRoot
    rw [bindGateway_of_routes (routes_of_gives h htools), bindGateway_of_routes (routes_of_gives h htools)]
  memory name := rfl
  prompts links groups := rfl
  code := by
    intro t groups declarations htools name isRoot gateway links memory ps
    have hroutes := routes_of_gives h htools
    exact {
      model := rfl
      isRoot := rfl
      declarations := rfl
      tools := (Gateway.tools_filter_of_routes hroutes on).trans
        (Gateway.tools_filter_of_routes hroutes s.primitives.gateway).symm
      gateway := rfl
      prompts := rfl
      memory := rfl
      links := rfl
      observability := rfl
      codeInterpreter := rfl
      routes := rfl
      region := rfl
      guardrail := rfl
      knowledgeBases := rfl
      idleTimeoutSeconds := rfl
      hasBuiltin := fun _ => rfl
      metadata := rfl }

mutual
/-- A definition compiles alike with a gateway and without, when the agents that are visited from it have
no operations behind remote functions. -/
theorem alike_switched (gateway : Option Bool) (on : Bool) : ∀ {ancestors : List String} {d : Definition},
    ancestors.Nodup →
    (∀ ds e, d.Path (ds ++ [e]) → (ancestors ++ identities (ds ++ [e])).Nodup →
      e.agent.isBacked = false) →
    Alike s (s.switched gateway on) ancestors d d
  | ancestors, .node a cs, hancestors, h => by
      -- Below an agent that stands below itself nothing is known, and nothing is compiled.
      by_cases hbelow : a.identity ∈ ancestors
      · exact .cyclic rfl rfl hbelow
      have hchain : (ancestors ++ [a.identity]).Nodup := nodup_concat hancestors hbelow
      refine .node (partsAlike_switched (h [] _ (.here _) hchain) gateway on) ?_
      rw [called]
      split
      · next hcollaborates =>
          refine alikeAll_switched gateway on hchain fun c hc ds e hpath hnodup => ?_
          refine h (.node a cs :: ds) e (.through hcollaborates hc hpath) ?_
          rwa [List.append_assoc] at hnodup
      · exact .nil
theorem alikeAll_switched (gateway : Option Bool) (on : Bool) : ∀ {chain : List String}
    {cs : List (Delegation × Definition)}, chain.Nodup →
    (∀ c ∈ cs, ∀ ds e, c.2.Path (ds ++ [e]) → (chain ++ identities (ds ++ [e])).Nodup →
      e.agent.isBacked = false) →
    AlikeAll s (s.switched gateway on) chain cs cs
  | _, [], _, _ => .nil
  | chain, (delegation, d) :: rest, hchain, h => by
      rw [List.forall_mem_cons] at h
      exact .cons (alike_switched gateway on hchain h.1) (alikeAll_switched gateway on hchain h.2)
end

/-- The switch for gateways has no influence on a definition in which no agent that is visited has an
operation behind a remote function. -/
theorem run_switched (o : Options) {d : Definition} (h : ∀ e, d.Visits e → e.agent.isBacked = false)
    (gateway gateway' : Option Bool) :
    run { o with gateway := gateway' } d = run { o with gateway := gateway } d := by
  refine run_eq_of_alike rfl rfl ?_
  refine alike_switched (s := Scope.ofRoot { o with gateway := gateway } d.agent) gateway' _
    List.nodup_nil fun ds e hpath hnodup => ?_
  exact h e ⟨ds, hpath, hnodup⟩

/-- A group whose operations are handed back to whoever runs the agent. -/
def desk : ActionGroup where
  name := "Desk"
  schema := some (.functions [{ name := "Ask" }])

/-- An agent and its collaborator, with a remote function that has no operations, operations that have no
remote function, and a disabled group with both. -/
def unserved : Definition :=
  .node {
      name := "Clerk", id := "A1", modelId := "m", collaboration := .supervisor
      actionGroups := [
        { name := "Archive", executor := .function "arn:aws:lambda:eu-west-1:1:function:archive" }, desk,
        { desk with executor := .function "arn:aws:lambda:eu-west-1:1:function:desk", enabled := false }] }
    [({ name := "porter" }, .node { name := "Porter", id := "A2", modelId := "m", actionGroups := [desk] } [])]

theorem run_switched_unserved :
    (∀ e, unserved.Visits e → e.agent.isBacked = false) ∧
      ((compileRoot { gateway := some true } unserved).run.run {}).1.isOk ∧
      run { gateway := some true } unserved = run { gateway := some false } unserved := by
  have hcalled : ∀ e ∈ unserved.postorder, e.agent.isBacked = false := by decide +kernel
  have hvisited : ∀ e, unserved.Visits e → e.agent.isBacked = false := fun e he =>
    hcalled e he.mem_postorder
  refine ⟨hvisited, ?_, run_switched {} hvisited (some false) (some true)⟩
  have hmade : ∀ e ∈ unserved.postorder,
      ((Tool.synthesize e.agent.customGroups true).run {}).isSome := by decide +kernel
  refine isOk_compileRoot (answers_of_none rfl) (fun ds hds e he hnone => ?_) ?_
  · exact Option.isSome_iff_ne_none.mp (hmade e (hds.mem_postorder he)) hnone
  · rintro ⟨ds, hds, hrepeats | ⟨e, he, kind, settings, -, hsettings, -⟩⟩
    · exact hrepeats (hds.nodup_identities (by decide))
    · have hnone : ∀ e ∈ unserved.postorder, e.agent.prompts = [] := by decide
      rw [Agent.prompt?, hnone e (hds.mem_postorder he)] at hsettings
      cases hsettings

end Compilation

end AgentCompiler
