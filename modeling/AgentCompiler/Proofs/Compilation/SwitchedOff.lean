import AgentCompiler.Proofs.Compilation.Alike

/-!
# Parts that are switched off

A definition may hold parts that nothing is compiled from: disabled groups and prompts, collaborators of
an agent that calls none, memory settings without a kind of memory, and the services of the platform that
an agent below the root asks for. A definition without these parts has the same outcome.
-/

namespace AgentCompiler

namespace Agent

/-- The agent without the parts that are switched off, with the given services of the platform. -/
def pared (a : Agent) (primitives : Primitives) : Agent :=
  { a with
    actionGroups := a.actionGroups.filter (·.enabled)
    prompts := a.prompts.filter (·.enabled)
    memory := a.memory.filter fun m => !m.enabledTypes.isEmpty
    primitives := primitives }

variable (a : Agent) (primitives : Primitives)

@[simp]
theorem customGroups_pared : (a.pared primitives).customGroups = a.customGroups := by
  rw [customGroups, customGroups, pared, List.filter_filter]
  refine List.filter_congr fun g _ => ?_
  cases g.enabled <;> simp

@[simp]
theorem hasBuiltin_pared (b : Builtin) : (a.pared primitives).hasBuiltin b = a.hasBuiltin b := by
  rw [hasBuiltin, hasBuiltin, pared, List.any_filter]
  refine congrArg a.actionGroups.any (funext fun g => ?_)
  cases g.enabled <;> simp

@[simp]
theorem hasActionGroups_pared : (a.pared primitives).hasActionGroups = a.hasActionGroups := by
  rw [hasActionGroups, hasActionGroups, pared, List.any_filter]
  refine congrArg a.actionGroups.any (funext fun g => ?_)
  exact Bool.and_self _

@[simp]
theorem prompt?_pared (kind : PromptKind) : (a.pared primitives).prompt? kind = a.prompt? kind := by
  rw [prompt?, prompt?, pared, List.find?_filter]
  refine congrArg (List.find? · a.prompts) (funext fun p => ?_)
  rw [Bool.decide_and, Bool.decide_eq_true, Bool.decide_eq_true, Bool.and_left_comm, Bool.and_self]

@[simp]
theorem memoryEnabled_pared : (a.pared primitives).memoryEnabled = a.memoryEnabled := by
  unfold memoryEnabled pared
  cases a.memory with
  | none => rfl
  | some m =>
      by_cases hempty : m.enabledTypes.isEmpty
      · simp [Option.filter, hempty]
      · simp [Option.filter, hempty]

@[simp]
theorem ofAgent_pared (moduleName : String) :
    MemoryBinding.ofAgent (a.pared primitives) moduleName = .ofAgent a moduleName := by
  unfold MemoryBinding.ofAgent
  rw [memoryEnabled_pared]
  unfold memoryEnabled pared
  cases a.memory with
  | none => rfl
  | some m =>
      by_cases hempty : m.enabledTypes.isEmpty
      · simp [Option.filter, hempty]
      · simp [Option.filter, hempty]

end Agent

namespace Definition

mutual
/-- The definition without the parts that are switched off. Below the root, each agent gets the services of
the platform that are chosen for its place, which are the positions of its callers and its own one, from
the agent up to the root. -/
def pared (choose : List Nat → Primitives) (place : List Nat) : Definition → Definition
  | .node a cs =>
    .node (a.pared (if place = [] then a.primitives else choose place))
      (if a.collaboration = .disabled then [] else paredAll choose place 0 cs)
/-- The collaborators from a position on, without the parts that are switched off. -/
def paredAll (choose : List Nat → Primitives) (place : List Nat) (position : Nat) :
    List (Delegation × Definition) → List (Delegation × Definition)
  | [] => []
  | (delegation, d) :: rest =>
    (delegation, d.pared choose (position :: place)) :: paredAll choose place (position + 1) rest
end

variable (choose : List Nat → Primitives) (place : List Nat)

theorem isEmpty_paredAll (position : Nat) (cs : List (Delegation × Definition)) :
    (paredAll choose place position cs).isEmpty = cs.isEmpty := by
  cases cs with
  | nil => rfl
  | cons c cs => rfl

@[simp]
theorem collaborates_pared (d : Definition) : (d.pared choose place).collaborates = d.collaborates := by
  obtain ⟨a, cs⟩ := d
  show (a.collaboration != .disabled && !List.isEmpty (if _ then _ else _)) =
    (a.collaboration != .disabled && !cs.isEmpty)
  by_cases hdisabled : a.collaboration = .disabled
  · simp [hdisabled]
  · rw [if_neg hdisabled, isEmpty_paredAll]

theorem agent_pared (d : Definition) : (d.pared choose place).agent =
    d.agent.pared (if place = [] then d.agent.primitives else choose place) := by
  obtain ⟨a, cs⟩ := d
  rw [pared]
  rfl

@[simp]
theorem isRouter_pared (d : Definition) : (d.pared choose place).isRouter = d.isRouter := by
  rw [isRouter, isRouter, collaborates_pared]
  obtain ⟨a, cs⟩ := d
  rfl

/-- An agent still calls the collaborators that it calls. -/
theorem called_pared (d : Definition) :
    (d.pared choose place).called = paredAll choose place 0 d.called := by
  rw [called, called, collaborates_pared]
  obtain ⟨a, cs⟩ := d
  by_cases hcalls : (Definition.node a cs).collaborates
  · have henabled : a.collaboration ≠ .disabled := by
      simp only [collaborates, agent, Bool.and_eq_true, bne_iff_ne] at hcalls
      exact hcalls.1
    rw [if_pos hcalls, if_pos hcalls, pared, if_neg henabled]
    rfl
  · rw [if_neg hcalls, if_neg hcalls]
    rfl

end Definition

namespace Compilation

section

variable {d d' : Definition} {primitives : Primitives}

theorem features_pared (a : Agent) :
    Prompt.Features.ofAgent (a.pared primitives) = .ofAgent a := by
  simp only [Prompt.Features.ofAgent, Agent.memoryEnabled_pared, Agent.hasBuiltin_pared,
    Agent.hasActionGroups_pared]
  rfl

theorem builtinTools_pared (profile : Profile) (a : Agent) :
    Assembly.builtinTools profile (a.pared primitives) = Assembly.builtinTools profile a := by
  simp only [Assembly.builtinTools, Agent.hasBuiltin_pared]
  rfl

/-- The prompts of an agent are compiled from what is switched on. -/
theorem settingPrompts_pared (setting : Prompt.Setting) (hagent : d'.agent = d.agent.pared primitives)
    (hrouter : d'.isRouter = d.isRouter) : setting.prompts d' = setting.prompts d := by
  have happlicable : Prompt.isApplicable d' setting.features = Prompt.isApplicable d setting.features := by
    funext kind
    cases kind <;> simp only [Prompt.isApplicable, hrouter]
  have hsource : Prompt.source? d'.agent = Prompt.source? d.agent := by
    funext kind
    simp only [Prompt.source?, hagent, Agent.prompt?_pared]
  unfold Prompt.Setting.prompts
  rw [happlicable, hsource]

theorem synthesize_pared (s : Scope) (a : Agent) : synthesize s (a.pared primitives) = synthesize s a := by
  rw [synthesize, Agent.customGroups_pared]
  rfl

theorem bindMemory_pared (s : Scope) (a : Agent) (name : String) :
    bindMemory s (a.pared primitives) name = bindMemory s a name := by
  rw [bindMemory, Agent.memoryEnabled_pared, Agent.ofAgent_pared]
  rfl

/-- What is the same for an agent and for what is left of it. -/
theorem kept_of_pared {β : Type} (hagent : d'.agent = d.agent.pared primitives) {f : Agent → β}
    (hf : f (d.agent.pared primitives) = f d.agent) : f d'.agent = f d.agent := by
  rw [hagent, hf]

/-- No part of an agent is compiled from what is switched off. -/
theorem partsAlike_pared (s : Scope) (hagent : d'.agent = d.agent.pared primitives)
    (hrouter : d'.isRouter = d.isRouter) : PartsAlike s s d d' where
  identity := kept_of_pared hagent rfl
  name := kept_of_pared hagent rfl
  tools := kept_of_pared hagent (synthesize_pared s d.agent)
  gateway := by
    intro t groups declarations _ name isRoot
    exact kept_of_pared (f := fun a => bindGateway s a name isRoot groups) hagent rfl
  memory name := kept_of_pared (f := fun a => bindMemory s a name) hagent (bindMemory_pared s d.agent name)
  prompts links groups := by
    unfold prompts
    dsimp only
    rw [settingPrompts_pared _ hagent hrouter, hagent, features_pared, builtinTools_pared]
    rfl
  code := by
    intro t groups declarations _ name isRoot gateway links memory ps
    exact {
      model := kept_of_pared (f := fun a => s.options.catalog.resolve a.modelId a.provider) hagent rfl
      isRoot := rfl
      declarations := rfl
      tools := rfl
      gateway := rfl
      prompts := rfl
      memory := rfl
      links := rfl
      observability := rfl
      codeInterpreter := rfl
      routes := hrouter
      region := kept_of_pared (f := Agent.region) hagent rfl
      guardrail := kept_of_pared (f := Agent.guardrail) hagent rfl
      knowledgeBases := kept_of_pared (f := Agent.knowledgeBases) hagent rfl
      idleTimeoutSeconds := kept_of_pared (f := Agent.idleTimeoutSeconds) hagent rfl
      hasBuiltin := fun b => kept_of_pared (f := (·.hasBuiltin b)) hagent (Agent.hasBuiltin_pared _ _ b)
      metadata := kept_of_pared (f := Tool.metadata) hagent rfl }

end

variable (s : Scope) (choose : List Nat → Primitives)

mutual
/-- A definition compiles like the one without the parts that are switched off. -/
theorem alike_pared : ∀ (ancestors : List String) (place : List Nat) (d : Definition),
    Alike s s ancestors d (d.pared choose place)
  | ancestors, place, .node a cs => by
      refine .node (partsAlike_pared s (Definition.agent_pared choose place _)
        (Definition.isRouter_pared choose place _)) ?_
      rw [Definition.called_pared, Definition.called]
      split
      · exact alikeAll_pared _ place 0 cs
      · exact .nil
theorem alikeAll_pared : ∀ (chain : List String) (place : List Nat) (position : Nat)
    (cs : List (Delegation × Definition)),
    AlikeAll s s chain cs (Definition.paredAll choose place position cs)
  | _, _, _, [] => .nil
  | chain, place, position, (_, d) :: rest =>
      .cons (alike_pared chain (position :: place) d) (alikeAll_pared chain place (position + 1) rest)
end

/-- The parts of a definition that are switched off have no influence: without them, and with whatever
services of the platform the agents below the root ask for, it has the same outcome. -/
theorem run_pared (o : Options) (d : Definition) (choose : List Nat → Primitives) :
    run o (d.pared choose []) = run o d := by
  have hscope : Scope.ofRoot o (d.pared choose []).agent = Scope.ofRoot o d.agent := by
    obtain ⟨a, cs⟩ := d
    rfl
  refine run_eq_of_alike rfl rfl ?_
  rw [hscope]
  exact alike_pared _ choose [] [] d

/-- Nothing of an agent's settings is left when all of them are switched off. -/
example : (Definition.node {
      name := "Lead", modelId := "m", memory := some {}
      actionGroups := [{ name := "Shelf", enabled := false }]
      prompts := [{ kind := .orchestration, enabled := false }] }
    [({ name := "aide" }, .node { name := "Aide", modelId := "m" } [])]).pared (fun _ => {}) [] =
      .node { name := "Lead", modelId := "m" } [] := rfl

end Compilation

end AgentCompiler
