import AgentCompiler.Proofs.Collaboration.Scope
import AgentCompiler.Proofs.Compilation.Service
import AgentCompiler.Proofs.Compilation.Tree
import AgentCompiler.Proofs.Text.Marker
import AgentCompiler.Proofs.Text.Pieces

/-!
# Session coordinators of a run

Whether a module binds a session coordinator is found on the way up the tree of agents, and the support
file is written when any module has a memory manager. `coordinator_wired_iff` says that both are decided by
the agents with memory below a module, and when the binding functions that a module calls are those of its
collaborators.
-/

namespace AgentCompiler

/-- An agent that is called from a definition on remembers, and no resource of the platform keeps its
memory. -/
def Definition.Remembers (managed : Bool) (d : Definition) : Prop :=
  ∃ e ∈ d.postorder, e.agent.memoryEnabled ∧ managed = false

theorem Definition.remembers_iff {managed : Bool} {d : Definition} :
    d.Remembers managed ↔ d.agent.memoryEnabled ∧ managed = false ∨
      ∃ c ∈ d.called, c.2.Remembers managed := by
  unfold Remembers
  rw [postorder_eq, or_comm]
  simp only [List.mem_append, List.mem_flatMap, List.mem_singleton]
  constructor
  · rintro ⟨e, ⟨c, hc, he⟩ | rfl, h⟩
    · exact .inl ⟨c, hc, e, he, h⟩
    · exact .inr h
  · rintro (⟨c, hc, e, he, h⟩ | h)
    · exact ⟨e, .inl ⟨c, hc, he⟩, h⟩
    · exact ⟨d, .inr rfl, h⟩

namespace ModulePlan

variable {profile : Profile} {p : ModulePlan}

/-! ## The memory section -/

/-- The memory section of the module has a block that starts with a line. -/
def HasMemoryBlock (profile : Profile) (p : ModulePlan) (line : String) : Prop :=
  ∃ block ∈ p.memoryBlocks profile, line.toList <+: block.toList

/-- The module defines the function that binds it to a coordinator. -/
def DefinesBinding (profile : Profile) (p : ModulePlan) : Prop :=
  p.HasMemoryBlock profile "def bind_session_coordinator(coordinator):"

/-- The module creates a coordinator. -/
def CreatesCoordinator (profile : Profile) (p : ModulePlan) : Prop :=
  p.HasMemoryBlock profile "session_coordinator = SessionCoordinator()"

theorem head?_shortTermMemory (profile : Profile) :
    (Assembly.shortTermMemory profile).toList.head? = some 'c' := by
  cases profile <;> rfl

theorem head?_memory_render (platform : String) (memory : MemoryBinding) :
    (memory.render platform).toList.head? = none ∨
      (memory.render platform).toList.head? = some 'm' := by
  cases memory with
  | disabled => exact .inl rfl
  | managed id region =>
      have hhead : MemoryBinding.managedText.toList.head? = some 'm' :=
        Text.head?_of_prefix rfl (Text.prefix_ofLines _ _)
      exact .inr (Text.head?_fill (by decide) hhead _)
  | selfContained maxSessions maxDays storageFile =>
      have hhead : MemoryBinding.managerText.toList.head? = some 'm' :=
        Text.head?_of_prefix rfl (Text.prefix_ofLines _ _)
      exact .inr (Text.head?_fill (by decide) hhead _)

/-- What the module calls to bind the collaborators below which there is a memory manager. -/
def bindingBlock (p : ModulePlan) : String :=
  Memory.coordinatorBinding p.memory.needsCoordinator
    ((p.links.filter (·.bindsCoordinator)).map (·.bindAlias))

theorem prefix_bindingBlock (p : ModulePlan) :
    ("def bind_session_coordinator(coordinator):" : String).toList <+: p.bindingBlock.toList :=
  Text.prefix_ofLines _ _

theorem head?_bindingBlock (p : ModulePlan) : p.bindingBlock.toList.head? = some 'd' :=
  Text.head?_of_prefix rfl p.prefix_bindingBlock

/-- A block of the memory section that starts with a `d` or an `s` has to do with the coordinator. -/
theorem mem_memoryBlocks {block : String} (h : block ∈ p.memoryBlocks profile) :
    block.toList.head? ∈ [none, some 'c', some 'm'] ∨
      p.bindsCoordinator ∧ block = p.bindingBlock ∨ p.makesCoordinator ∧ block = Memory.rootCoordinator := by
  rcases List.mem_append.mp h with h | h
  · rcases List.mem_append.mp h with h | h
    · left
      rcases List.mem_cons.mp h with rfl | h
      · rw [head?_shortTermMemory]
        decide
      · rw [List.mem_singleton.mp h]
        rcases head?_memory_render profile.platform p.memory with h | h
        · rw [h]
          decide
        · rw [h]
          decide
    · unfold blockIf at h
      split at h
      · next hbinds => exact .inr (.inl ⟨hbinds, List.mem_singleton.mp h⟩)
      · cases h
  · unfold blockIf at h
    split at h
    · next hmakes => exact .inr (.inr ⟨hmakes, List.mem_singleton.mp h⟩)
    · cases h

theorem bindingBlock_mem (h : p.bindsCoordinator) : p.bindingBlock ∈ p.memoryBlocks profile := by
  refine List.mem_append_left _ (List.mem_append_right _ ?_)
  rw [blockIf, if_pos h]
  exact List.mem_singleton_self _

theorem definesBinding_iff : p.DefinesBinding profile ↔ p.bindsCoordinator := by
  have hhead : ("def bind_session_coordinator(coordinator):" : String).toList.head? = some 'd' := rfl
  constructor
  · rintro ⟨block, hblock, hprefix⟩
    have hd := Text.head?_of_prefix hhead hprefix
    rcases mem_memoryBlocks hblock with h | ⟨hbinds, -⟩ | ⟨-, rfl⟩
    · rw [hd] at h
      exact absurd h (by decide)
    · exact hbinds
    · have hs : Memory.rootCoordinator.toList.head? = some 's' :=
        Text.head?_of_prefix rfl (Text.prefix_ofLines _ _)
      exact absurd (hd.symm.trans hs) (by decide)
  · exact fun h => ⟨_, bindingBlock_mem h, p.prefix_bindingBlock⟩

theorem createsCoordinator_iff : p.CreatesCoordinator profile ↔ p.makesCoordinator := by
  have hhead : ("session_coordinator = SessionCoordinator()" : String).toList.head? = some 's' := rfl
  constructor
  · rintro ⟨block, hblock, hprefix⟩
    have hs := Text.head?_of_prefix hhead hprefix
    rcases mem_memoryBlocks hblock with h | ⟨-, rfl⟩ | ⟨hmakes, -⟩
    · rw [hs] at h
      exact absurd h (by decide)
    · exact absurd (hs.symm.trans p.head?_bindingBlock) (by decide)
    · exact hmakes
  · intro h
    refine ⟨Memory.rootCoordinator, List.mem_append_right _ ?_, Text.prefix_ofLines _ _⟩
    rw [blockIf, if_pos h]
    exact List.mem_singleton_self _

end ModulePlan

namespace Compilation

open Emission (plans)

variable {s : Scope} {top : Bool} {d : Definition} {es : List Emission} {p : ModulePlan}

/-! ## Agents with memory -/

mutual
/-- A module binds a coordinator exactly when an agent from its own on remembers. -/
theorem Compiled.bindsCoordinator_iff : ∀ {top : Bool} {d : Definition} {es : List Emission}
    {p : ModulePlan}, Compiled s top d es p →
      (p.bindsCoordinator ↔ d.Remembers s.primitives.memory)
  | _, d, _, p, .node planned _ definition called => by
      have hagent : p.agent = d.agent := congrArg Definition.agent definition
      rw [ModulePlan.bindsCoordinator, Bool.or_eq_true, planned.memory, called.any_bindsCoordinator,
        d.remembers_iff, hagent, Bool.and_eq_true, Bool.not_eq_true']
theorem CompiledAll.any_bindsCoordinator : ∀ {cs : List (Delegation × Definition)}
    {links : List Link} {es : List Emission}, CompiledAll s cs links es →
      (links.any (·.bindsCoordinator) ↔ ∃ c ∈ cs, c.2.Remembers s.primitives.memory)
  | _, _, _, .nil => by simp
  | _, _, _, .cons head _ tail => by
      rw [List.any_cons, Bool.or_eq_true, tail.any_bindsCoordinator, List.exists_mem_cons_iff,
        ← head.bindsCoordinator_iff]
      rfl
end

theorem Compiled.makesCoordinator_eq (h : Compiled s top d es p) :
    p.makesCoordinator = (top && p.bindsCoordinator) := by
  cases h with
  | node planned isRoot definition called => rw [ModulePlan.makesCoordinator, isRoot]

/-- The support file is needed exactly when an agent remembers. -/
theorem Compiled.any_needsCoordinator (h : Compiled s top d es p) :
    (plans es).any (fun q => q.memory.needsCoordinator) ↔ d.Remembers s.primitives.memory := by
  rw [List.any_eq_true]
  have hneeds {q : ModulePlan} (hq : q ∈ plans es) : q.memory.needsCoordinator ↔
      q.definition.agent.memoryEnabled ∧ s.primitives.memory = false := by
    obtain ⟨function, hplanned⟩ := h.planned (Emission.mem_plans.mp hq)
    rw [hplanned.memory, Bool.and_eq_true, Bool.not_eq_true']
    rfl
  rw [Definition.Remembers, ← h.definitions]
  constructor
  · rintro ⟨q, hq, hmemory⟩
    exact ⟨q.definition, List.mem_map_of_mem hq, (hneeds hq).mp hmemory⟩
  · rintro ⟨e, he, hmemory⟩
    obtain ⟨q, hq, rfl⟩ := List.mem_map.mp he
    exact ⟨q, hq, (hneeds hq).mpr hmemory⟩

/-! ## The support file -/

/-- A module is not called like the support file. -/
theorem fileName_ne_managerFile {profile : Profile} {name : String}
    (h : profile.platform.toList <+: name.toList) : name ++ ".py" ≠ Memory.managerFile := by
  intro heq
  have hprefix : profile.platform.toList <+: Memory.managerFile.toList := by
    rw [← heq, String.toList_append]
    exact h.trans (List.prefix_append _ _)
  rw [← List.isPrefixOf_iff_prefix] at hprefix
  cases profile <;> exact absurd hprefix (by decide)

theorem prefix_numbered (base : String) (n : Nat) : base.toList <+: (numbered base n).toList := by
  unfold numbered
  split
  · exact List.prefix_rfl
  · rw [Name.numbered, String.toList_append, String.toList_append, List.append_assoc]
    exact List.prefix_append _ _

/-- A function behind a gateway is not called like the support file. -/
theorem dispatch_ne_managerFile (a : Agent) (rs : List Gateway.Route) :
    (Gateway.Dispatch.ofAgent a rs).fileName ≠ Memory.managerFile := by
  have hfile : Memory.managerFile = "ltm_memory_manager" ++ ".py" := by decide
  rw [hfile, Gateway.Dispatch.fileName, Gateway.Dispatch.ofAgent, Ne, String.append_left_inj]
  intro hname
  dsimp only at hname
  unfold Name.bound at hname
  split at hname
  · -- The name of a function that is not cut ends otherwise.
    have hlast := congrArg (fun name : String => name.toList.getLast?) hname
    simp at hlast
  · -- A name that is cut is as long as the budget and the digest together.
    next hlong =>
      have hcut : Name.maxLength - 7 < (Name.snake a.name ++ "_gateway_proxy").length := by
        simp only [not_or, not_le] at hlong
        omega
      have hlength := Name.length_prune_of_lt hcut
      rw [hname] at hlength
      exact absurd hlength (by decide)

/-- Nothing that is emitted is called like the support file. -/
theorem file_ne_managerFile {o : Options} {t : State} (h : Gives (compileRoot o d) {} () t)
    {e : Emission} (he : e ∈ t.emitted) : (e.file o.profile).path ≠ Memory.managerFile := by
  obtain ⟨root, hcompiled, hroot⟩ := compiled_compileRoot h
  cases e with
  | dispatch f =>
      obtain ⟨q, hplanned⟩ := hcompiled.planned_dispatch he
      obtain ⟨groups, registry, -, -, hfunction⟩ := hplanned.tools
      obtain ⟨plan, hplan, rfl⟩ := Option.map_eq_some_iff.mp hfunction.symm
      obtain ⟨-, rfl⟩ := plan_of_some hplan
      exact dispatch_ne_managerFile _ _
  | agentModule q =>
      have hplatform : o.profile.platform.toList <+: q.name.toList := by
        rcases hcompiled.eq_or_below he with rfl | hbelow
        · rw [hroot, String.toList_append, String.toList_append, List.append_assoc]
          exact List.prefix_append _ _
        · obtain ⟨delegation, n, hname⟩ := hbelow.name
          have hbase := prefix_numbered (collaboratorBase o.profile.platform delegation) n
          rw [collaboratorBase, String.toList_append, String.toList_append, List.append_assoc] at hbase
          rw [hname]
          exact (List.prefix_append _ _).trans hbase
      exact fileName_ne_managerFile hplatform

/-- The support file is written exactly when a module has a memory manager. -/
theorem managerFile_mem_iff {o : Options} {t : State} (h : Gives (compileRoot o d) {} () t) :
    Memory.managerFile ∈ (t.output o).files.map (·.path) ↔
      (plans t.emitted).any (fun p => p.memory.needsCoordinator) := by
  have hemitted : Memory.managerFile ∉ (t.emitted.map (Emission.file o.profile)).map (·.path) := by
    intro hmem
    rw [List.map_map] at hmem
    obtain ⟨e, he, hpath⟩ := List.mem_map.mp hmem
    exact file_ne_managerFile h he hpath
  have henvironment : Memory.managerFile ≠ environmentFile := by decide
  have hrequirements : Memory.managerFile ≠ Profile.requirementsFile := by decide
  have hplan : Memory.managerFile ≠ Provisioning.planFile := by decide
  rw [State.output, List.map_append, List.mem_append, or_iff_right hemitted, extraFiles, plans]
  by_cases hmanager : (t.emitted.filterMap (·.plan?)).any fun p => p.memory.needsCoordinator
  · rw [if_pos hmanager]
    simp [hmanager]
  · rw [if_neg hmanager]
    by_cases hprovisioner : o.provisioner.isNone
    · simp [hmanager, hprovisioner, henvironment, hrequirements, hplan]
    · simp [hmanager, hprovisioner, henvironment, hrequirements]

/-! ## The wiring of a run -/

/-- A collaborator of a module is compiled to a module of its own. The function that binds it to a
coordinator is imported, and called by the module's own, exactly when that module defines it. -/
structure Wired (profile : Profile) (es : List Emission) (c : Delegation × Definition) (l : Link) :
    Prop where
  delegation : l.delegation = c.1
  target : ∃ r : ModulePlan, .agentModule r ∈ es ∧ r.definition = c.2 ∧ r.name = l.moduleName ∧
    (("bind_session_coordinator", l.bindAlias) ∈ l.imports ↔ r.DefinesBinding profile) ∧
    (l.bindsCoordinator ↔ r.DefinesBinding profile)

theorem LeadsTo.wired {t : State} {profile : Profile} {c : Delegation × Definition} {l : Link}
    (h : LeadsTo t c l) : Wired profile t.emitted c l := by
  obtain ⟨r, hr, hdefinition, hname, hbinds⟩ := h.target
  refine ⟨h.delegation, r, hr, hdefinition, hname, ?_, ?_⟩
  · rw [ModulePlan.definesBinding_iff, hbinds, Link.mem_imports]
    simp
  · rw [ModulePlan.definesBinding_iff, hbinds]

/-- In a run that goes through, a module defines the function that binds it to a session coordinator
exactly when its agent or one below it remembers. It calls those of its collaborators whose modules define
one, and these calls reach them exactly when no two of them are bound under one name, and no tool has such
a name. The root alone creates a coordinator, and the support file is written, exactly when an agent
remembers. -/
theorem coordinator_wired_iff {o : Options} {out : Output} (h : (run o d).result = .ok out) :
    ∃ t, out.files = t.emitted.map (Emission.file o.profile) ++ extraFiles o t ∧
      (∀ p : ModulePlan, .agentModule p ∈ t.emitted →
        (p.DefinesBinding o.profile ↔ p.definition.Remembers d.agent.primitives.memory) ∧
          (p.DefinesBinding o.profile → p.bindingBlock ∈ p.memoryBlocks o.profile) ∧
          List.Forall₂ (Wired o.profile t.emitted) p.definition.called p.links ∧
          ((∀ l ∈ p.links, l.bindsCoordinator → p.Reaches l) ↔ p.BindingsApart)) ∧
      (∃ init root, t.emitted = init ++ [.agentModule root] ∧
        (root.CreatesCoordinator o.profile ↔ d.Remembers d.agent.primitives.memory) ∧
        ∀ p : ModulePlan, .agentModule p ∈ init → ¬p.CreatesCoordinator o.profile) ∧
      (Memory.managerFile ∈ out.files.map (·.path) ↔ d.Remembers d.agent.primitives.memory) := by
  obtain ⟨t, hgives, rfl⟩ := result_run_eq_ok.mp h
  obtain ⟨root, hcompiled, -⟩ := compiled_compileRoot hgives
  obtain ⟨-, hlinked⟩ := linked_compileRoot hgives
  refine ⟨t, rfl, fun p hp => ⟨?_, ?_, ?_, ModulePlan.reached_iff_bindingsApart⟩, ?_, ?_⟩
  · obtain ⟨_, _, hpart⟩ := hcompiled.part hp
    rw [ModulePlan.definesBinding_iff]
    exact hpart.bindsCoordinator_iff
  · exact fun hdefines => ModulePlan.bindingBlock_mem (ModulePlan.definesBinding_iff.mp hdefines)
  · exact List.Forall₂.imp (fun _ _ => LeadsTo.wired) (hlinked p hp)
  · obtain ⟨init, hinit, hbelow⟩ := hcompiled.exists_init
    refine ⟨init, root, hinit, ?_, fun p hp => ?_⟩
    · rw [ModulePlan.createsCoordinator_iff, hcompiled.makesCoordinator_eq, Bool.true_and]
      exact hcompiled.bindsCoordinator_iff
    · obtain ⟨part, hpart⟩ := (hbelow p hp).compiled
      rw [ModulePlan.createsCoordinator_iff, hpart.makesCoordinator_eq, Bool.false_and]
      exact Bool.false_ne_true
  · rw [managerFile_mem_iff hgives]
    exact hcompiled.any_needsCoordinator

/-- An agent that remembers in a file of its own. Its templates are short. -/
def keeper (name : String) : Agent :=
  { supervisor name with
    memory := some { enabledTypes := ["SESSION_SUMMARY"] }
    prompts :=
      [{ kind := .orchestration, template := .str "Answer the question." },
       { kind := .memorySummarization, template := .str "Sum up the conversation." }] }

/-- An agent with two collaborators, one of which remembers. -/
def oneKeeper : Definition :=
  .node (supervisor "Lead") [({ name := "helper" }, .node (keeper "Nora") []),
    ({ name := "check" }, .node (supervisor "Olaf") [])]

/-- An agent with two collaborators that remember, whose names differ in a capital. -/
def twoKeepers : Definition :=
  .node (supervisor "Lead") [({ name := "helper" }, .node (keeper "Nora") []),
    ({ name := "Helper" }, .node (keeper "Olaf") [])]

theorem coordinator_wired_oneKeeper :
    ∃ out t, (run {} oneKeeper).result = .ok out ∧
      out.files = t.emitted.map (Emission.file .standard) ++ extraFiles {} t ∧
      (∃ init root, t.emitted = init ++ [.agentModule root] ∧ root.CreatesCoordinator .standard) ∧
      Memory.managerFile ∈ out.files.map (·.path) := by
  have hends : (run {} oneKeeper).result.isOk := by decide +kernel
  have hremembers : oneKeeper.Remembers oneKeeper.agent.primitives.memory :=
    ⟨.node (keeper "Nora") [], List.mem_cons_self, by decide +kernel, rfl⟩
  cases hrun : (run {} oneKeeper).result with
  | ok out =>
      obtain ⟨t, hfiles, -, ⟨init, root, hinit, hcreates, -⟩, hmanager⟩ := coordinator_wired_iff hrun
      exact ⟨out, t, rfl, hfiles, ⟨init, root, hinit, hcreates.mpr hremembers⟩,
        hmanager.mpr hremembers⟩
  | error e =>
      rw [hrun] at hends
      cases hends

/-- What a module knows of its collaborators' names and modules. -/
def linkNames (p : ModulePlan) : List (String × String × Bool) :=
  p.links.map fun l => (l.name, l.moduleName, l.bindsCoordinator)

/-- Collaborators with names that are cleaned alike are bound under one name. -/
theorem coordinator_not_wired_twoKeepers :
    ∃ t, Gives (compileRoot {} twoKeepers) {} () t ∧
      ∃ p : ModulePlan, .agentModule p ∈ t.emitted ∧ p.definition = twoKeepers ∧
        ∃ l ∈ p.links, l.bindsCoordinator ∧ ¬p.Reaches l := by
  obtain ⟨t, p, h, hcompiled⟩ : ∃ t p, Gives (compileRoot {} twoKeepers) {} () t ∧
      Compiled (Scope.ofRoot {} twoKeepers.agent) true twoKeepers t.emitted p :=
    compiled_of_isOk (by decide +kernel)
  have hnames : (plans ((compileRoot {} twoKeepers).run.run {}).2.emitted).map linkNames =
      [[], [], [("helper", "langchain_collaborator_helper", true),
        ("helper", "langchain_collaborator_helper_2", true)]] := by decide +kernel
  rw [h] at hnames
  -- The root's module comes last, with a link for each of the two.
  obtain ⟨init, hinit, -⟩ := hcompiled.exists_init
  have hlast := congrArg List.getLast? hnames
  rw [hinit, Emission.plans_append, Emission.plans_singleton, List.map_append, List.map_singleton,
    List.getLast?_concat] at hlast
  obtain ⟨l, rest, hlinks, hl, hrest⟩ := List.map_eq_cons_iff.mp (Option.some.inj hlast)
  obtain ⟨l', rest', rfl, hl', -⟩ := List.map_eq_cons_iff.mp hrest
  simp only [Prod.mk.injEq] at hl hl'
  have hmem : l ∈ p.links ∧ l' ∈ p.links := by simp [hlinks]
  refine ⟨t, h, p, hcompiled.mem, hcompiled.definition_eq, ?_⟩
  -- Were both reached, collaborators of one name would be one module.
  by_contra hall
  have hapart : p.BindingsApart := ModulePlan.reached_iff_bindingsApart.mp fun k hk hbinds => by
    by_contra hreach
    exact hall ⟨k, hk, hbinds, hreach⟩
  have hmodules := hapart.modules l hmem.1 l' hmem.2 hl.2.2 hl'.2.2 (hl.1.trans hl'.1.symm)
  rw [hl.2.1, hl'.2.1] at hmodules
  exact absurd hmodules (by decide)

end Compilation

end AgentCompiler
