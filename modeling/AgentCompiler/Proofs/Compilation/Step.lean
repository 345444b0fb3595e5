import AgentCompiler.Compilation.Run

/-!
# Steps of a run

A run goes through from one state to another, or it stops with a fault. What a step can do to the state
is said once, for each step of a run. `gives_induction` takes it from the steps to all that a run goes
through.
-/

namespace AgentCompiler

/-- The collaborators that an agent calls. -/
def Definition.called (d : Definition) : List (Delegation × Definition) :=
  if d.collaborates then d.collaborators else []

namespace Compilation

open Provisioning (Request Handle)

variable {α β : Type} {x : Run α} {f : α → Run β} {a : α} {b : β} {e : RunFault} {t t' : State}

/-- The run goes through from one state to another. -/
def Gives (x : Run α) (t : State) (a : α) (t' : State) : Prop := x.run.run t = (.ok a, t')

/-- The run stops with a fault. -/
def Stops (x : Run α) (t : State) (e : RunFault) (t' : State) : Prop := x.run.run t = (.error e, t')

/-- A run goes through or stops. -/
theorem gives_or_stops (x : Run α) (t : State) :
    (∃ a t', Gives x t a t') ∨ ∃ e t', Stops x t e t' := by
  cases hrun : x.run.run t with
  | mk result t' =>
      cases result with
      | ok a => exact .inl ⟨a, t', hrun⟩
      | error e => exact .inr ⟨e, t', hrun⟩

/-- A run that goes through does not stop. -/
theorem Gives.not_stops (h : Gives x t a t') {t'' : State} : ¬Stops x t e t'' := by
  intro hstop
  cases h.symm.trans hstop

/-! ## Sequences -/

@[simp]
theorem gives_pure {c : α} : Gives (pure c) t a t' ↔ a = c ∧ t' = t := by
  constructor
  · intro h
    cases h
    exact ⟨rfl, rfl⟩
  · rintro ⟨rfl, rfl⟩
    rfl

@[simp]
theorem not_stops_pure {c : α} : ¬Stops (pure c : Run α) t e t' := by
  intro h
  cases h

@[simp]
theorem not_gives_throw {e' : RunFault} : ¬Gives (throw e' : Run α) t a t' := by
  intro h
  cases h

@[simp]
theorem stops_throw {e' : RunFault} : Stops (throw e' : Run α) t e t' ↔ e = e' ∧ t' = t := by
  constructor
  · intro h
    cases h
    exact ⟨rfl, rfl⟩
  · rintro ⟨rfl, rfl⟩
    rfl

/-- A sequence goes on from where its first part ends. -/
theorem run_bind (x : Run α) (f : α → Run β) (t : State) :
    (x >>= f).run.run t =
      match x.run.run t with
      | (.ok a, t') => (f a).run.run t'
      | (.error e, t') => (.error e, t') := by
  show (ExceptT.bindCont f (x.run.run t).1) (x.run.run t).2 = _
  cases hrun : x.run.run t with
  | mk result t' => cases result <;> rfl

/-- A sequence goes through when both parts do. -/
theorem gives_bind : Gives (x >>= f) t b t' ↔ ∃ a t₁, Gives x t a t₁ ∧ Gives (f a) t₁ b t' := by
  rw [Gives, run_bind]
  constructor
  · intro h
    split at h
    · next a t₁ hx => exact ⟨a, t₁, hx, h⟩
    · cases h
  · rintro ⟨a, t₁, hx, hf⟩
    rw [hx]
    exact hf

/-- A sequence stops in its first part, or when that went through in the second. -/
theorem stops_bind :
    Stops (x >>= f) t e t' ↔ Stops x t e t' ∨ ∃ a t₁, Gives x t a t₁ ∧ Stops (f a) t₁ e t' := by
  rw [Stops, run_bind]
  constructor
  · intro h
    split at h
    · next a t₁ hx => exact .inr ⟨a, t₁, hx, h⟩
    · next e' t₁ hx =>
        cases h
        exact .inl hx
  · rintro (hx | ⟨a, t₁, hx, hf⟩)
    · rw [hx]
    · rw [hx]
      exact hf

/-! ## Single steps -/

section

variable {s : Scope} {base name what : String} {agent : Agent}

/-- A name is made from its base and from how often this base was wanted before. -/
theorem gives_moduleName :
    Gives (moduleName base) t name t' ↔
      name = numbered base (t.wanted.count base + 1) ∧
        t' = { t with wanted := t.wanted ++ [base] } := by
  constructor
  · intro h
    cases h
    exact ⟨rfl, rfl⟩
  · rintro ⟨rfl, rfl⟩
    rfl

@[simp]
theorem not_stops_moduleName : ¬Stops (moduleName base) t e t' := by
  intro h
  cases h

/-- What answers the requests of a run. -/
def Scope.provisioner (s : Scope) : Provisioning.Provisioner :=
  s.options.provisioner.getD Provisioning.planner

/-- A request is kept when it is answered. -/
theorem run_ask (s : Scope) (what : String) (r : Request) (t : State) :
    (ask s what r).run.run t =
      match s.provisioner t.requests r with
      | .error reason => (.error (.refused what reason), t)
      | .ok answer => (.ok answer, { t with requests := t.requests ++ [r] }) := by
  show (match s.provisioner t.requests r with
    | .error reason => throw (.refused what reason)
    | .ok answer => do
        set { t with requests := t.requests ++ [r] }
        return answer : Run r.Answer).run.run t = _
  cases s.provisioner t.requests r with
  | error reason => rfl
  | ok answer => rfl

theorem gives_ask {r : Request} {answer : r.Answer} (h : Gives (ask s what r) t answer t') :
    s.provisioner t.requests r = .ok answer ∧ t' = { t with requests := t.requests ++ [r] } := by
  rw [Gives, run_ask] at h
  split at h
  · cases h
  · next answer' hanswer =>
      cases h
      exact ⟨hanswer, rfl⟩

theorem stops_ask {r : Request} (h : Stops (ask s what r) t e t') :
    ∃ reason, s.provisioner t.requests r = .error reason ∧ e = .refused what reason := by
  rw [Stops, run_ask] at h
  split at h
  · next reason hreason =>
      cases h
      exact ⟨reason, hreason, rfl⟩
  · cases h

theorem gives_emit {emission : Emission} (h : Gives (emit emission) t () t') :
    t' = { t with emitted := t.emitted ++ [emission] } := by
  cases h
  rfl

@[simp]
theorem not_stops_emit {emission : Emission} : ¬Stops (emit emission) t e t' := by
  intro h
  cases h

theorem gives_addVariables {bindings : List (String × String)}
    (h : Gives (addVariables bindings) t () t') :
    t' = { t with environment := t.environment ++ bindings } := by
  cases h
  rfl

@[simp]
theorem not_stops_addVariables {bindings : List (String × String)} :
    ¬Stops (addVariables bindings) t e t' := by
  intro h
  cases h

/-- The tools of an agent are those of its own groups, and the state stays as it is. -/
theorem gives_synthesize {groups : List ToolGroup} {declarations : List Declaration}
    (h : Gives (synthesize s agent) t (groups, declarations) t') :
    t' = t ∧ ∃ registry,
      (Tool.synthesize agent.customGroups s.primitives.gateway).run {} = some (groups, registry) ∧
        declarations = registry.declarations := by
  unfold synthesize at h
  split at h
  · next groups' registry hsome =>
      obtain ⟨heq, rfl⟩ := gives_pure.mp h
      cases heq
      exact ⟨rfl, registry, hsome, rfl⟩
  · exact absurd h not_gives_throw

/-- The synthesis stops when the types of the tools nest without end. -/
theorem stops_synthesize (h : Stops (synthesize s agent) t e t') :
    (Tool.synthesize agent.customGroups s.primitives.gateway).run {} = none ∧
      e = .endlessSchema agent.name := by
  unfold synthesize at h
  split at h
  · exact absurd h not_stops_pure
  · next hnone => exact ⟨hnone, (stops_throw.mp h).1⟩

/-! ## The gateway of an agent -/

/-- The registration of targets adds one request for each of them, in order. -/
theorem gives_register {handle : Handle} {functionRef : String} {targets : List Gateway.Target}
    (h : Gives (targets.forM fun target =>
      discard (ask s ("gateway target " ++ target.name) (.gatewayTarget handle target functionRef)))
      t () t') :
    t' = { t with
      requests := t.requests ++ targets.map fun target => .gatewayTarget handle target functionRef } := by
  induction targets generalizing t with
  | nil =>
      obtain ⟨-, rfl⟩ := gives_pure.mp h
      simp
  | cons target targets ih =>
      rw [List.forM] at h
      obtain ⟨_, t₁, hfirst, hrest⟩ := gives_bind.mp h
      obtain ⟨answer, t₂, hask, hdiscard⟩ := gives_bind.mp hfirst
      obtain ⟨-, rfl⟩ := gives_ask hask
      obtain ⟨-, rfl⟩ := gives_pure.mp hdiscard
      rw [ih hrest]
      simp

/-- What is asked for to serve an agent's tools: its gateway, the function behind it, and its targets. -/
def serving (a : Agent) (plan : Gateway.Plan) (handle : Handle) (functionRef : String) :
    List Request :=
  .gateway a.name a.region :: .dispatchEndpoint plan.dispatch ::
    plan.targets.map fun target => .gatewayTarget handle target functionRef

theorem gives_serve {plan : Gateway.Plan} {handle : Handle} (h : Gives (serve s agent plan) t handle t') :
    ∃ functionRef,
      t' = { t with requests := t.requests ++ serving agent plan handle functionRef } := by
  unfold serve at h
  obtain ⟨handle', t₁, hgateway, h⟩ := gives_bind.mp h
  obtain ⟨functionRef, t₂, hfunction, h⟩ := gives_bind.mp h
  obtain ⟨_, t₃, htargets, h⟩ := gives_bind.mp h
  obtain ⟨rfl, rfl⟩ := gives_pure.mp h
  obtain ⟨-, rfl⟩ := gives_ask hgateway
  obtain ⟨-, rfl⟩ := gives_ask hfunction
  refine ⟨functionRef, ?_⟩
  rw [gives_register htargets]
  simp [serving]

/-- The plan for the gateway of an agent; none when no gateway is used or none is needed. -/
def gatewayPlan? (s : Scope) (a : Agent) (groups : List ToolGroup) : Option Gateway.Plan :=
  if s.primitives.gateway then Gateway.plan? a groups else none

/-- Without a plan for a gateway the state stays as it is. With one, its requests and the dispatch
function are kept. -/
theorem gives_bindGateway {isRoot : Bool} {groups : List ToolGroup}
    {binding : Option GatewayBinding}
    (h : Gives (bindGateway s agent name isRoot groups) t binding t') :
    t'.wanted = t.wanted ∧
      (gatewayPlan? s agent groups = none ∧ binding = none ∧ t' = t ∨
        ∃ plan handle functionRef, gatewayPlan? s agent groups = some plan ∧
          t'.requests = t.requests ++ serving agent plan handle functionRef ∧
          t'.emitted = t.emitted ++ [.dispatch plan.dispatch]) := by
  unfold bindGateway at h
  split at h
  · next hoff =>
      obtain ⟨rfl, rfl⟩ := gives_pure.mp h
      have hnone : gatewayPlan? s agent groups = none := by
        rw [gatewayPlan?, if_neg (by simpa using hoff)]
      exact ⟨rfl, .inl ⟨hnone, rfl, rfl⟩⟩
  next hon =>
  have hplan : gatewayPlan? s agent groups = Gateway.plan? agent groups := by
    rw [gatewayPlan?, if_pos (by simpa using hon)]
  split at h
  · next hnone =>
      obtain ⟨rfl, rfl⟩ := gives_pure.mp h
      exact ⟨rfl, .inl ⟨hplan.trans hnone, rfl, rfl⟩⟩
  · next plan hsome =>
      obtain ⟨handle, t₁, hserve, h⟩ := gives_bind.mp h
      obtain ⟨_, t₂, hvariables, h⟩ := gives_bind.mp h
      obtain ⟨_, t₃, hemit, h⟩ := gives_bind.mp h
      obtain ⟨functionRef, rfl⟩ := gives_serve hserve
      obtain rfl := gives_addVariables hvariables
      obtain rfl := gives_emit hemit
      obtain ⟨-, rfl⟩ := gives_pure.mp h
      exact ⟨rfl, .inr ⟨plan, handle, functionRef, hplan.trans hsome, rfl, rfl⟩⟩

/-! ## The module of an agent -/

/-- The request for the memory of an agent adds to the requests at most. -/
theorem gives_bindMemory {memory : MemoryBinding} (h : Gives (bindMemory s agent name) t memory t') :
    t' = t ∨ t' = { t with
      requests := t.requests ++ [.managedMemory agent.name .sessionSummaries agent.region] } := by
  unfold bindMemory at h
  split at h
  · exact .inl (gives_pure.mp h).2
  split at h
  · obtain ⟨id, t₁, hask, h⟩ := gives_bind.mp h
    obtain ⟨-, rfl⟩ := gives_ask hask
    exact .inr (gives_pure.mp h).2
  · exact .inl (gives_pure.mp h).2

/-- What the prompts of an agent are compiled with. -/
def promptSetting (s : Scope) (a : Agent) (links : List Link) (groups : List ToolGroup) :
    Prompt.Setting :=
  ⟨s.options.fixtures, .ofAgent a, .ofAgent a links (groups.flatMap (fun g => g.tools.map (·.name)) ++
    Assembly.builtinTools s.options.profile a)⟩

theorem gives_prompts {d : Definition} {links : List Link} {groups : List ToolGroup}
    {ps : List Prompt.Compiled} (h : Gives (prompts s d links groups) t ps t') : t' = t := by
  unfold prompts at h
  dsimp only at h
  split at h
  · exact (gives_pure.mp h).2
  · exact absurd h not_gives_throw

/-- The prompts stop a run when one of them does not compile. -/
theorem stops_prompts {d : Definition} {links : List Link} {groups : List ToolGroup} :
    Stops (prompts s d links groups) t e t' ↔
      ∃ fault, (promptSetting s d.agent links groups).prompts d = .error fault ∧
        e = .badTemplate fault ∧ t' = t := by
  unfold prompts promptSetting
  dsimp only
  split
  · next ps hprompts => simp [hprompts]
  · next fault hprompts => simp [hprompts]

/-- The plan of an agent's module. -/
def planModule (s : Scope) (d : Definition) (name : String) (isRoot : Bool)
    (groups : List ToolGroup) (declarations : List Declaration) (gateway : Option GatewayBinding)
    (links : List Link) (memory : MemoryBinding) (prompts : List Prompt.Compiled) : ModulePlan where
  definition := d
  name := name
  model := s.options.catalog.resolve d.agent.modelId d.agent.provider
  isRoot := isRoot
  declarations := declarations
  groups := groups.filter fun g => !g.isProxied s.primitives.gateway
  gateway := gateway
  prompts := prompts
  memory := memory
  links := links
  primitives := s.primitives

/-- The collaborators of a definition are compiled when the agent calls them. -/
def compileBelow (s : Scope) (chain : List String) (d : Definition) : Run (List Link) :=
  if d.collaborates then compileAll s chain d.collaborators else pure []

/-- An agent below itself stops the run. Any other one is compiled part by part. -/
theorem compile_node (s : Scope) (ancestors : List String) (name : String) (a : Agent)
    (cs : List (Delegation × Definition)) :
    compile s ancestors name (.node a cs) =
      if a.identity ∈ ancestors then throw (.cyclic (ancestors ++ [a.identity]))
      else do
        let tools ← synthesize s a
        let gateway ← bindGateway s a name ancestors.isEmpty tools.1
        let links ← compileBelow s (ancestors ++ [a.identity]) (.node a cs)
        let memory ← bindMemory s a name
        let ps ← prompts s (.node a cs) links tools.1
        let plan := planModule s (.node a cs) name ancestors.isEmpty tools.1 tools.2 gateway links memory ps
        emit (.agentModule plan)
        return plan.bindsCoordinator := by
  rw [compile]
  by_cases hmem : a.identity ∈ ancestors
  · rw [if_pos (List.contains_iff_mem.mpr hmem), if_pos hmem]
    rfl
  · rw [if_neg (fun h => hmem (List.contains_iff_mem.mp h)), if_neg hmem]
    refine bind_congr fun tools => bind_congr fun gateway => ?_
    unfold compileBelow
    split
    · rfl
    · rfl

variable {ancestors : List String} {cs : List (Delegation × Definition)}

/-- What an agent goes through that is compiled. -/
theorem gives_compile {binds : Bool}
    (h : Gives (compile s ancestors name (.node agent cs)) t binds t') :
    agent.identity ∉ ancestors ∧ ∃ groups declarations gateway links memory ps t₁ t₂ t₃,
      Gives (synthesize s agent) t (groups, declarations) t ∧
      Gives (bindGateway s agent name ancestors.isEmpty groups) t gateway t₁ ∧
      Gives (compileBelow s (ancestors ++ [agent.identity]) (.node agent cs)) t₁ links t₂ ∧
      Gives (bindMemory s agent name) t₂ memory t₃ ∧
      Gives (prompts s (.node agent cs) links groups) t₃ ps t₃ ∧
      t' = { t₃ with emitted := t₃.emitted ++ [.agentModule (planModule s (.node agent cs) name
        ancestors.isEmpty groups declarations gateway links memory ps)] } ∧
      binds = (planModule s (.node agent cs) name ancestors.isEmpty groups declarations gateway links
        memory ps).bindsCoordinator := by
  rw [compile_node] at h
  split at h
  · exact absurd h not_gives_throw
  next hnew =>
  obtain ⟨⟨groups, declarations⟩, t₀, htools, h⟩ := gives_bind.mp h
  obtain ⟨gateway, t₁, hgateway, h⟩ := gives_bind.mp h
  obtain ⟨links, t₂, hbelow, h⟩ := gives_bind.mp h
  obtain ⟨memory, t₃, hmemory, h⟩ := gives_bind.mp h
  obtain ⟨ps, t₄, hprompts, h⟩ := gives_bind.mp h
  obtain ⟨_, t₅, hemit, h⟩ := gives_bind.mp h
  obtain ⟨rfl, -⟩ := gives_synthesize htools
  obtain rfl := gives_prompts hprompts
  obtain rfl := gives_emit hemit
  obtain ⟨rfl, rfl⟩ := gives_pure.mp h
  exact ⟨hnew, groups, declarations, gateway, links, memory, ps, t₁, t₂, t₄, htools, hgateway, hbelow,
    hmemory, hprompts, rfl, rfl⟩

/-! ## Whole runs -/

/-- To show something of all agents that a run goes through, it is shown of an agent from what holds of
the collaborators that it calls, and of collaborators one after the other. -/
theorem gives_induction {P : List String → String → Definition → State → Bool → State → Prop}
    {Q : List String → List (Delegation × Definition) → State → List Link → State → Prop}
    (node : ∀ {ancestors name d groups declarations gateway links memory ps t t₁ t₂ t₃},
      d.agent.identity ∉ ancestors →
      Gives (synthesize s d.agent) t (groups, declarations) t →
      Gives (bindGateway s d.agent name ancestors.isEmpty groups) t gateway t₁ →
      Q (ancestors ++ [d.agent.identity]) d.called t₁ links t₂ →
      Gives (bindMemory s d.agent name) t₂ memory t₃ →
      Gives (prompts s d links groups) t₃ ps t₃ →
      P ancestors name d t
        (planModule s d name ancestors.isEmpty groups declarations gateway links memory
          ps).bindsCoordinator
        { t₃ with emitted := t₃.emitted ++ [.agentModule (planModule s d name ancestors.isEmpty groups
          declarations gateway links memory ps)] })
    (nil : ∀ {chain t}, Q chain [] t [] t)
    (cons : ∀ {chain delegation d rest name binds links t t₁ t₂ t'},
      Gives (moduleName (s.platform ++ "_collaborator_" ++ Name.snake delegation.name)) t name t₁ →
      P chain name d t₁ binds t₂ → Q chain rest t₂ links t' →
      Q chain ((delegation, d) :: rest) t (⟨delegation, d.agent.name, name, binds⟩ :: links) t') :
    (∀ ancestors name d t binds t', Gives (compile s ancestors name d) t binds t' →
        P ancestors name d t binds t') ∧
      ∀ chain cs t links t', Gives (compileAll s chain cs) t links t' → Q chain cs t links t' := by
  refine compile.mutual_induct s _ _ ?cyclic ?node ?nil ?cons
  case cyclic =>
    intro ancestors name a cs chain hmem _ t binds t' h
    exact absurd (List.contains_iff_mem.mp hmem) (gives_compile h).1
  case node =>
    intro ancestors name a cs chain _ ih t binds t' h
    obtain ⟨hnew, groups, declarations, gateway, links, memory, ps, t₁, t₂, t₃, htools, hgateway,
      hbelow, hmemory, hprompts, rfl, rfl⟩ := gives_compile h
    refine node hnew htools hgateway ?_ hmemory hprompts
    unfold compileBelow at hbelow
    unfold Definition.called
    split at hbelow
    · next hon =>
        rw [if_pos hon]
        exact ih _ _ _ hbelow
    · next hoff =>
        -- An agent that does not collaborate calls none.
        obtain ⟨rfl, rfl⟩ := gives_pure.mp hbelow
        rw [if_neg hoff]
        exact nil
  case nil =>
    intro chain t links t' h
    obtain ⟨rfl, rfl⟩ := gives_pure.mp h
    exact nil
  case cons =>
    intro chain delegation d rest ih ih' t links t' h
    rw [compileAll] at h
    obtain ⟨name, t₁, hname, h⟩ := gives_bind.mp h
    obtain ⟨binds, t₂, hfirst, h⟩ := gives_bind.mp h
    obtain ⟨links', t₃, hrest, h⟩ := gives_bind.mp h
    obtain ⟨rfl, rfl⟩ := gives_pure.mp h
    exact cons hname (ih name _ _ _ hfirst) (ih' _ _ _ hrest)

/-- A run that goes through compiles its root under the first name that is wanted. -/
theorem gives_compileRoot {o : Options} {d : Definition} (h : Gives (compileRoot o d) {} () t) :
    ∃ binds, Gives
      (compile (.ofRoot o d.agent) [] (o.profile.platform ++ "_" ++ Name.snake d.agent.name) d)
      { wanted := [o.profile.platform ++ "_" ++ Name.snake d.agent.name] } binds t := by
  obtain ⟨name, t₁, hname, h⟩ := gives_bind.mp h
  obtain ⟨binds, t₂, hcompile, h⟩ := gives_bind.mp h
  obtain ⟨-, rfl⟩ := gives_pure.mp h
  obtain ⟨rfl, rfl⟩ := gives_moduleName.mp hname
  exact ⟨binds, hcompile⟩

end

end Compilation

end AgentCompiler
