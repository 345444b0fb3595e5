import AgentCompiler.Proofs.Compilation.Links

/-!
# What a run emits

What a run that goes through emits follows the tree of agents: `Compiled` says what stands where, and
`compiled_compile` that nothing else is emitted. All that is said about the modules of a run can be
read off the tree.
-/

namespace AgentCompiler

namespace Definition

mutual
/-- The agents that are called from a definition on, each of them behind all that it calls. -/
def postorder : Definition → List Definition
  | .node a cs =>
    (if (Definition.node a cs).collaborates then postorderAll cs else []) ++ [.node a cs]
/-- The agents that are called from collaborators on. -/
def postorderAll : List (Delegation × Definition) → List Definition
  | [] => []
  | (_, d) :: rest => d.postorder ++ postorderAll rest
end

theorem postorderAll_eq (cs : List (Delegation × Definition)) :
    postorderAll cs = cs.flatMap fun c => c.2.postorder := by
  induction cs with
  | nil => rfl
  | cons c cs ih => rw [postorderAll, ih, List.flatMap_cons]

/-- An agent stands behind all that it calls. -/
theorem postorder_eq (d : Definition) :
    d.postorder = (d.called.flatMap fun c => c.2.postorder) ++ [d] := by
  obtain ⟨a, cs⟩ := d
  rw [postorder, called, postorderAll_eq]
  split
  · rfl
  · rfl

end Definition

/-- The link to a compiled collaborator. -/
def ModulePlan.link (delegation : Delegation) (p : ModulePlan) : Link :=
  ⟨delegation, p.agent.name, p.name, p.bindsCoordinator⟩

namespace Emission

/-- The plans of the modules, in order. -/
def plans (es : List Emission) : List ModulePlan := es.filterMap (·.plan?)

@[simp]
theorem plans_append (es es' : List Emission) : plans (es ++ es') = plans es ++ plans es' :=
  List.filterMap_append

@[simp]
theorem plans_singleton (p : ModulePlan) : plans [.agentModule p] = [p] := rfl

@[simp]
theorem plans_dispatch (functions : List Gateway.Dispatch) : plans (functions.map .dispatch) = [] := by
  rw [plans, List.filterMap_map]
  exact List.filterMap_eq_nil_iff.mpr fun _ _ => rfl

theorem mem_plans {es : List Emission} {p : ModulePlan} : p ∈ plans es ↔ .agentModule p ∈ es := by
  rw [plans, List.mem_filterMap]
  constructor
  · rintro ⟨e, he, hp⟩
    cases e with
    | dispatch f => cases hp
    | agentModule q =>
        cases hp
        exact he
  · exact fun h => ⟨_, h, rfl⟩

end Emission

namespace Compilation

open Emission (plans)

/-! ## The tree of what is emitted -/

/-- The module and the function behind the gateway are planned from one synthesis of the agent's tools,
and the memory from its settings. -/
structure Planned (s : Scope) (p : ModulePlan) (function : Option Gateway.Dispatch) : Prop where
  tools : ∃ groups registry,
    (Tool.synthesize p.agent.customGroups s.primitives.gateway).run {} = some (groups, registry) ∧
      p.groups = (groups.filter fun g => !g.isProxied s.primitives.gateway) ∧
      function = (gatewayPlan? s p.agent groups).map (·.dispatch)
  memory : p.memory.needsCoordinator = (p.agent.memoryEnabled && !s.primitives.memory)

mutual
/-- What is emitted for a definition: the function behind its gateway, what is emitted for the agents
that it calls, and its module. -/
inductive Compiled (s : Scope) : Bool → Definition → List Emission → ModulePlan → Prop
  | node {top : Bool} {d : Definition} {p : ModulePlan} {function : Option Gateway.Dispatch}
      {below : List Emission} (planned : Planned s p function) (isRoot : p.isRoot = top)
      (definition : p.definition = d) (called : CompiledAll s d.called p.links below) :
      Compiled s top d (function.toList.map .dispatch ++ (below ++ [.agentModule p])) p
/-- What is emitted for collaborators, one after the other, and their links. -/
inductive CompiledAll (s : Scope) :
    List (Delegation × Definition) → List Link → List Emission → Prop
  | nil : CompiledAll s [] [] []
  | cons {c : Delegation × Definition} {cs : List (Delegation × Definition)} {links : List Link}
      {p : ModulePlan} {n : Nat} {first rest : List Emission} (head : Compiled s false c.2 first p)
      (name : p.name = numbered (collaboratorBase s.platform c.1) n)
      (tail : CompiledAll s cs links rest) :
      CompiledAll s (c :: cs) (p.link c.1 :: links) (first ++ rest)
end

/-- A module that was emitted for a collaborator, together with all that it calls. -/
structure Below (s : Scope) (q : ModulePlan) : Prop where
  compiled : ∃ part, Compiled s false q.definition part q
  name : ∃ delegation n, q.name = numbered (collaboratorBase s.platform delegation) n

section

variable {s : Scope}

namespace Compiled

variable {top : Bool} {d : Definition} {es : List Emission} {p : ModulePlan}

theorem definition_eq (h : Compiled s top d es p) : p.definition = d := by
  cases h with
  | node planned isRoot definition called => exact definition

theorem agent_eq (h : Compiled s top d es p) : p.agent = d.agent :=
  congrArg Definition.agent h.definition_eq

end Compiled

/-! ## Its modules -/

mutual
/-- There is one module for each agent that is called, in postorder. -/
theorem Compiled.definitions : ∀ {top : Bool} {d : Definition} {es : List Emission} {p : ModulePlan},
    Compiled s top d es p → (plans es).map (·.definition) = d.postorder
  | _, d, _, _, .node _ _ definition called => by
      rw [Emission.plans_append, Emission.plans_append, Emission.plans_dispatch,
        Emission.plans_singleton, List.nil_append, List.map_append, List.map_singleton,
        called.definitions, definition, Definition.postorder_eq]
theorem CompiledAll.definitions : ∀ {cs : List (Delegation × Definition)} {links : List Link}
    {es : List Emission}, CompiledAll s cs links es →
      (plans es).map (·.definition) = cs.flatMap fun c => c.2.postorder
  | _, _, _, .nil => rfl
  | _, _, _, .cons head _ tail => by
      rw [Emission.plans_append, List.map_append, head.definitions, tail.definitions,
        List.flatMap_cons]
end

mutual
/-- All modules but an agent's own one are those of collaborators. -/
theorem Compiled.eq_or_below {q : ModulePlan} : ∀ {top : Bool} {d : Definition} {es : List Emission}
    {p : ModulePlan}, Compiled s top d es p → .agentModule q ∈ es → q = p ∨ Below s q
  | _, _, _, _, .node _ _ _ called, hq => by
      rcases List.mem_append.mp hq with hq | hq
      · obtain ⟨f, -, hf⟩ := List.mem_map.mp hq
        cases hf
      rcases List.mem_append.mp hq with hq | hq
      · exact .inr (called.below_of_mem hq)
      · cases List.mem_singleton.mp hq
        exact .inl rfl
theorem CompiledAll.below_of_mem {q : ModulePlan} : ∀ {cs : List (Delegation × Definition)}
    {links : List Link} {es : List Emission}, CompiledAll s cs links es → .agentModule q ∈ es →
      Below s q
  | _, _, _, .cons head name tail, hq => by
      rcases List.mem_append.mp hq with hq | hq
      · rcases head.eq_or_below hq with rfl | hbelow
        · exact ⟨⟨_, head.definition_eq.symm ▸ head⟩, _, _, name⟩
        · exact hbelow
      · exact tail.below_of_mem hq
end

/-- An agent's own module comes last, behind those of collaborators. -/
theorem Compiled.exists_init {top : Bool} {d : Definition} {es : List Emission} {p : ModulePlan}
    (h : Compiled s top d es p) :
    ∃ init, es = init ++ [.agentModule p] ∧ ∀ q, .agentModule q ∈ init → Below s q := by
  cases h with
  | node planned isRoot definition called =>
      refine ⟨_, (List.append_assoc _ _ _).symm, fun q hq => ?_⟩
      rcases List.mem_append.mp hq with hq | hq
      · obtain ⟨f, -, hf⟩ := List.mem_map.mp hq
        cases hf
      · exact called.below_of_mem hq

theorem Compiled.mem {top : Bool} {d : Definition} {es : List Emission} {p : ModulePlan}
    (h : Compiled s top d es p) : .agentModule p ∈ es := by
  obtain ⟨init, rfl, -⟩ := h.exists_init
  exact List.mem_append_right _ (List.mem_singleton_self _)

/-- Every module stands at the end of what was emitted for its agent. -/
theorem Compiled.part {top : Bool} {d : Definition} {es : List Emission} {p q : ModulePlan}
    (h : Compiled s top d es p) (hq : .agentModule q ∈ es) :
    ∃ top part, Compiled s top q.definition part q := by
  rcases h.eq_or_below hq with rfl | hbelow
  · exact ⟨_, _, h.definition_eq.symm ▸ h⟩
  · obtain ⟨part, hpart⟩ := hbelow.compiled
    exact ⟨_, part, hpart⟩

/-- Every module is planned for its agent. -/
theorem Compiled.planned {top : Bool} {d : Definition} {es : List Emission} {p q : ModulePlan}
    (h : Compiled s top d es p) (hq : .agentModule q ∈ es) : ∃ function, Planned s q function := by
  obtain ⟨_, _, hpart⟩ := h.part hq
  cases hpart with
  | node planned isRoot definition called => exact ⟨_, planned⟩

mutual
/-- A function is planned together with a module. -/
theorem Compiled.planned_dispatch {f : Gateway.Dispatch} : ∀ {top : Bool} {d : Definition}
    {es : List Emission} {p : ModulePlan}, Compiled s top d es p → .dispatch f ∈ es →
      ∃ q, Planned s q (some f)
  | _, _, _, p, .node planned _ _ called, hf => by
      rcases List.mem_append.mp hf with hf | hf
      · obtain ⟨f', hf', heq⟩ := List.mem_map.mp hf
        cases heq
        cases Option.mem_toList.mp hf'
        exact ⟨p, planned⟩
      rcases List.mem_append.mp hf with hf | hf
      · exact called.planned_dispatch hf
      · cases List.mem_singleton.mp hf
theorem CompiledAll.planned_dispatch {f : Gateway.Dispatch} :
    ∀ {cs : List (Delegation × Definition)} {links : List Link} {es : List Emission},
      CompiledAll s cs links es → .dispatch f ∈ es → ∃ q, Planned s q (some f)
  | _, _, _, .cons head _ tail, hf => by
      rcases List.mem_append.mp hf with hf | hf
      · exact head.planned_dispatch hf
      · exact tail.planned_dispatch hf
end

end

section

variable {s : Scope} {t t' : State} {top : Bool} {d : Definition} {es : List Emission}
  {p : ModulePlan} {cs : List (Delegation × Definition)} {links : List Link}

/-- Collaborators are linked to the modules that were emitted for them. -/
theorem CompiledAll.linked (h : CompiledAll s cs links es) :
    List.Forall₂ (LeadsTo { emitted := es }) cs links := by
  induction cs generalizing links es with
  | nil =>
      cases h
      exact .nil
  | cons c cs ih =>
      cases h with
      | @cons _ _ links p n first rest head name tail =>
          have hname : p.agent.name = c.2.agent.name := congrArg Agent.name head.agent_eq
          refine .cons ⟨rfl, hname, p, ?_, head.definition_eq, rfl, rfl⟩ ?_
          · exact List.mem_append_left _ head.mem
          · exact List.Forall₂.imp (fun _ _ => LeadsTo.mono (List.subset_append_right _ _)) (ih tail)

/-- The links of an agent's module have the names of the collaborators that it calls. -/
theorem Compiled.names (h : Compiled s top d es p) : p.links.map Link.name = d.calledNames := by
  cases h with
  | @node _ _ _ _ below planned isRoot definition called =>
      have hlinked : Linked { emitted := below } p := by
        rw [Linked, definition]
        exact called.linked
      rw [hlinked.names, definition]

/-! ## Runs -/

theorem emitted_bindGateway {a : Agent} {name : String} {groups : List ToolGroup}
    {binding : Option GatewayBinding} (h : Gives (bindGateway s a name top groups) t binding t') :
    t'.emitted = t.emitted ++
      ((gatewayPlan? s a groups).map (·.dispatch)).toList.map .dispatch := by
  rcases (gives_bindGateway h).2 with ⟨hnone, -, rfl⟩ | ⟨plan, handle, functionRef, hsome, -, hemitted⟩
  · rw [hnone]
    exact (List.append_nil _).symm
  · rw [hsome]
    exact hemitted

theorem emitted_bindMemory {a : Agent} {name : String} {memory : MemoryBinding}
    (h : Gives (bindMemory s a name) t memory t') : t'.emitted = t.emitted := by
  rcases gives_bindMemory h with rfl | rfl
  · rfl
  · rfl

theorem gives_bindMemory_needsCoordinator {a : Agent} {name : String} {memory : MemoryBinding}
    (h : Gives (bindMemory s a name) t memory t') :
    memory.needsCoordinator = (a.memoryEnabled && !s.primitives.memory) := by
  unfold bindMemory at h
  by_cases hmemory : a.memoryEnabled
  · rw [if_neg (by simp [hmemory])] at h
    by_cases hmanaged : s.primitives.memory
    · rw [if_pos hmanaged] at h
      obtain ⟨id, t₁, -, h⟩ := gives_bind.mp h
      rw [(gives_pure.mp h).1, hmemory, hmanaged]
      rfl
    · rw [if_neg hmanaged] at h
      rw [(gives_pure.mp h).1, hmemory, Bool.eq_false_iff.mpr hmanaged]
      unfold MemoryBinding.ofAgent
      split
      · rw [if_pos hmemory]
        rfl
      · next hnone => simp [Agent.memoryEnabled, hnone] at hmemory
  · rw [if_pos (by simp [hmemory])] at h
    rw [(gives_pure.mp h).1, Bool.eq_false_iff.mpr hmemory]
    rfl

/-- A run emits for an agent and for all that it calls what the tree tells, and nothing else. Only an
agent without ancestors is a root. -/
theorem compiled_compile (s : Scope) :
    (∀ ancestors name d t binds t', Gives (compile s ancestors name d) t binds t' →
        ∃ es p, t'.emitted = t.emitted ++ es ∧ Compiled s ancestors.isEmpty d es p ∧ p.name = name ∧
          p.bindsCoordinator = binds) ∧
      ∀ chain cs t links t', Gives (compileAll s chain cs) t links t' → chain ≠ [] →
        ∃ es, t'.emitted = t.emitted ++ es ∧ CompiledAll s cs links es := by
  refine gives_induction ?node ?nil ?cons
  case node =>
    intro ancestors name d groups declarations gateway links memory ps t t₁ t₂ t₃ _ htools hgateway
      hcalled hmemory _
    obtain ⟨-, registry, hsynthesize, -⟩ := gives_synthesize htools
    obtain ⟨below, hemitted, hcompiled⟩ :=
      hcalled (List.append_ne_nil_of_right_ne_nil _ (List.cons_ne_nil _ _))
    have hplanned : Planned s (planModule s d name ancestors.isEmpty groups declarations gateway links
        memory ps) ((gatewayPlan? s d.agent groups).map (·.dispatch)) :=
      ⟨⟨groups, registry, hsynthesize, rfl, rfl⟩, gives_bindMemory_needsCoordinator hmemory⟩
    refine ⟨_, _, ?_, .node hplanned rfl rfl hcompiled, rfl, rfl⟩
    show t₃.emitted ++ _ = _
    rw [emitted_bindMemory hmemory, hemitted, emitted_bindGateway hgateway]
    simp only [List.append_assoc]
  case nil =>
    intro chain t _
    exact ⟨[], (List.append_nil _).symm, .nil⟩
  case cons =>
    intro chain delegation d rest name binds links t t₁ t₂ t' hname hfirst hrest hchain
    obtain ⟨hnumbered, rfl⟩ := gives_moduleName.mp hname
    obtain ⟨first, p, hemitted, hcompiled, rfl, rfl⟩ := hfirst
    obtain ⟨es, hemitted', hall⟩ := hrest hchain
    -- The chain holds at least the caller, so no collaborator is compiled as a root.
    rw [List.isEmpty_eq_false_iff.mpr hchain] at hcompiled
    have hlink : (⟨delegation, d.agent.name, p.name, p.bindsCoordinator⟩ : Link) = p.link delegation := by
      rw [ModulePlan.link, hcompiled.agent_eq]
    refine ⟨first ++ es, ?_, ?_⟩
    · rw [hemitted', hemitted, List.append_assoc]
    · rw [hlink]
      exact .cons hcompiled hnumbered hall

/-- In a run that goes through, all is emitted for the root. -/
theorem compiled_compileRoot {o : Options} (h : Gives (compileRoot o d) {} () t) :
    ∃ p, Compiled (Scope.ofRoot o d.agent) true d t.emitted p ∧
      p.name = o.profile.platform ++ "_" ++ Name.snake d.agent.name := by
  obtain ⟨binds, hcompile⟩ := gives_compileRoot h
  obtain ⟨es, p, hemitted, hcompiled, hmodule, -⟩ := (compiled_compile _).1 _ _ _ _ _ _ hcompile
  refine ⟨p, ?_, hmodule⟩
  rw [hemitted]
  exact hcompiled

/-- A run whose evaluation goes through compiles the root. -/
theorem compiled_of_isOk {o : Options} (h : ((compileRoot o d).run.run {}).1.isOk) :
    ∃ t p, Gives (compileRoot o d) {} () t ∧ Compiled (Scope.ofRoot o d.agent) true d t.emitted p := by
  obtain ⟨⟨⟩, t, hgives⟩ | ⟨e, t, hstops⟩ := gives_or_stops (compileRoot o d) {}
  · obtain ⟨p, hcompiled, -⟩ := compiled_compileRoot hgives
    exact ⟨t, p, hgives, hcompiled⟩
  · rw [hstops] at h
    cases h

/-- A run goes through with what its last state gives. -/
theorem result_run_eq_ok {o : Options} {out : Output} :
    (run o d).result = .ok out ↔ ∃ t, Gives (compileRoot o d) {} () t ∧ out = t.output o := by
  unfold run Gives
  cases hrun : (compileRoot o d).run.run {} with
  | mk ended t =>
      cases ended with
      | ok u =>
          constructor
          · intro h
            cases h
            exact ⟨t, rfl, rfl⟩
          · rintro ⟨t', h, rfl⟩
            cases h
            rfl
      | error e =>
          constructor
          · intro h
            cases h
          · rintro ⟨t', h, -⟩
            cases h

end

end Compilation

end AgentCompiler
