import AgentCompiler.Proofs.Assembly.Assigned
import AgentCompiler.Proofs.Assembly.Setup
import AgentCompiler.Proofs.Compilation.OutputFile
import AgentCompiler.Proofs.Prompt.Listed

/-!
# Names of prompts in the modules of a run

Which prompts a module has is settled when its templates are compiled, and which of them its code names is
settled elsewhere: by the steps of its conversation, by the kind of its memory and by its tools. Both sides
are decided by the definition of the agent alone, so they agree. Only a value that is put into the memory
section can bring in another name, when the region of a resource holds the marker of the identifier that is
put in behind it.
-/

namespace AgentCompiler

open Assembly Code
open Prompt (Listed)

/-- The region of a resource holds the marker of its identifier, which is put in later. -/
def MemoryBinding.Reopened (m : MemoryBinding) : Prop :=
  ∃ id region, m = .managed id region ∧ Text.marker "memory_id".toList <:+: region.toList

namespace ModulePlan

variable {profile : Profile} {p : ModulePlan} {kinds : List PromptKind} {kind : PromptKind}

/-- The memory section names a kind of prompt outside of texts. -/
def MemoryMentions (profile : Profile) (p : ModulePlan) (kind : PromptKind) : Prop :=
  ∃ block ∈ p.memoryBlocks profile, Mentions (bare block) kind

/-- A name occurs in the conversation, or outside of texts in the memory section or in the tool that runs
code. -/
def Uses (profile : Profile) (p : ModulePlan) (name : String) : Prop :=
  name.toList <:+: (p.conversation.render profile).toList ∨
    (∃ block ∈ p.memoryBlocks profile, name.toList <:+: bare block) ∨
    p.runsCode ∧ name.toList <:+: bare (interpreterCode profile p.primitives.codeInterpreter p.model
      p.agent.region)

/-- Every name of a prompt that the module uses is assigned once. -/
def NamesAssigned (profile : Profile) (p : ModulePlan) : Prop :=
  ∀ kind : PromptKind, ∀ name ∈ kind.names, p.Uses profile name → p.AssignedOnce profile name

theorem hasPrompt_iff : p.hasPrompt kind ↔ kind ∈ p.prompts.map (·.kind) := by
  simp [hasPrompt]

/-- A conversation takes the steps for which the module has prompts. -/
theorem promptKinds_conversation_subset (h : Listed p.definition (p.prompts.map (·.kind))) :
    p.conversation.promptKinds ⊆ p.prompts.map (·.kind) := by
  have hsingle {condition : Bool} {kind : PromptKind}
      (hkind : condition = true → kind ∈ p.prompts.map (·.kind)) :
      (if condition then [kind] else []) ⊆ p.prompts.map (·.kind) :=
    fun k hk => forall_mem_if (P := (· ∈ p.prompts.map (·.kind)))
      (fun hon => List.forall_mem_singleton.mpr (hkind hon)) k hk
  simp only [Conversation.promptKinds, List.append_subset]
  and_intros
  · exact List.cons_subset.mpr ⟨h.leads, List.nil_subset _⟩
  · refine hsingle fun hrouter => h.routes.mpr ?_
    exact (Bool.and_eq_true_iff.mp hrouter).1
  · exact hsingle hasPrompt_iff.mp
  · exact hsingle hasPrompt_iff.mp

theorem render_mem_memoryBlocks : p.memory.render profile.platform ∈ p.memoryBlocks profile := by
  simp [memoryBlocks]

/-- What else stands in the memory section names no prompt. -/
theorem memoryMentions_iff : p.MemoryMentions profile kind ↔
    Mentions (bare (p.memory.render profile.platform)) kind := by
  have hnone {block : String} (h : MentionsOnly [] (bare block)) : ¬Mentions (bare block) kind :=
    fun hmentions => List.not_mem_nil (h kind hmentions)
  have hshort : ¬Mentions (bare (shortTermMemory profile)) kind := by
    refine hnone (.bare ?_)
    cases profile with
    | langgraph => exact .of_unmarked_ofList rfl (by decide +kernel)
    | strands => exact .of_unmarked_ofList rfl (by decide +kernel)
  have hbinds : ¬Mentions (bare (Memory.coordinatorBinding p.memory.needsCoordinator
      ((p.links.filter (·.bindsCoordinator)).map (·.bindAlias)))) kind := by
    refine hnone (mentionsOnly_coordinatorBinding _ (List.forall_mem_map.mpr fun l _ => ?_))
    have hfirst : ∀ c ∈ ("bind_" : String).toList, Name.isKeyChar c := List.all_eq_true.mp (by decide)
    have hlast : ∀ c ∈ ("_session_coordinator" : String).toList, Name.isKeyChar c :=
      List.all_eq_true.mp (by decide)
    exact Name.isKeyChar_append (Name.isKeyChar_append hfirst (Name.isKeyChar_snake _)) hlast
  have hroot : ¬Mentions (bare Memory.rootCoordinator) kind :=
    hnone (.bare (.of_unmarked_lines (by repeat' constructor) (by decide +kernel)))
  constructor
  · rintro ⟨block, hblock, hmentions⟩
    simp only [memoryBlocks, blockIf, List.mem_append, List.mem_cons, List.not_mem_nil, or_false] at hblock
    rcases hblock with ((rfl | rfl) | hblock) | hblock
    · exact absurd hmentions hshort
    · exact hmentions
    · split at hblock
      · rw [List.mem_singleton.mp hblock] at hmentions
        exact absurd hmentions hbinds
      · cases hblock
    · split at hblock
      · rw [List.mem_singleton.mp hblock] at hmentions
        exact absurd hmentions hroot
      · cases hblock
  · exact fun hmentions => ⟨_, render_mem_memoryBlocks, hmentions⟩

/-- All names of prompts in a module are assigned once exactly when those in its memory section are names
of prompts that it has. -/
theorem namesAssigned_iff (h : Listed p.definition (p.prompts.map (·.kind))) :
    p.NamesAssigned profile ↔
      ∀ kind, p.MemoryMentions profile kind → kind ∈ p.prompts.map (·.kind) := by
  constructor
  · rintro hall kind ⟨block, hblock, name, hname, hin⟩
    exact (assignedOnce_iff h.nodup hname).mp (hall kind name hname (.inr (.inl ⟨block, hblock, hin⟩)))
  · intro hmemory kind name hname huses
    rw [assignedOnce_iff h.nodup hname]
    rcases huses with hconversation | ⟨block, hblock, hin⟩ | ⟨-, hinterpreter⟩
    · exact promptKinds_conversation_subset h
        (p.conversation.mentionsOnly_render profile kind ⟨name, hname, hconversation⟩)
    · exact hmemory kind ⟨block, hblock, name, hname, hin⟩
    · have hkind := mentionsOnly_interpreterCode profile _ _ _ kind ⟨name, hname, hinterpreter⟩
      rw [List.mem_singleton.mp hkind]
      exact h.leads

end ModulePlan

namespace Compilation

variable {s : Scope} {a : Agent} {name : String} {t t' : State} {d : Definition} {p : ModulePlan}

/-! ## Modules and their prompts -/

/-- The prompts of a module are compiled from its definition, and its memory is bound for its agent. -/
structure Prompted (s : Scope) (p : ModulePlan) : Prop where
  prompts : ∃ links groups, (promptSetting s p.agent links groups).prompts p.definition = .ok p.prompts
  memory : ∃ t t', Gives (bindMemory s p.agent p.name) t p.memory t'

theorem gives_prompts_ok {links : List Link} {groups : List ToolGroup} {ps : List Prompt.Compiled}
    (h : Gives (prompts s d links groups) t ps t') :
    (promptSetting s d.agent links groups).prompts d = .ok ps := by
  unfold prompts at h
  dsimp only at h
  split at h
  · next hok =>
      rw [(gives_pure.mp h).1]
      exact hok
  · exact absurd h not_gives_throw

/-- All modules that were emitted are prompted. -/
def AllPrompted (s : Scope) (t : State) : Prop :=
  ∀ p : ModulePlan, .agentModule p ∈ t.emitted → Prompted s p

theorem AllPrompted.bindGateway {top : Bool} {groups : List ToolGroup} {binding : Option GatewayBinding}
    (ht : AllPrompted s t) (h : Gives (bindGateway s a name top groups) t binding t') :
    AllPrompted s t' := by
  intro p hp
  rw [emitted_bindGateway h] at hp
  rcases List.mem_append.mp hp with hp | hp
  · exact ht p hp
  · obtain ⟨f, -, hf⟩ := List.mem_map.mp hp
    cases hf

/-- What is emitted for an agent and for all that it calls is prompted. -/
theorem allPrompted_compile (s : Scope) :
    (∀ ancestors name d t binds t', Gives (compile s ancestors name d) t binds t' →
        AllPrompted s t → AllPrompted s t') ∧
      ∀ chain cs t links t', Gives (compileAll s chain cs) t links t' →
        AllPrompted s t → AllPrompted s t' := by
  refine gives_induction ?node ?nil ?cons
  case node =>
    intro ancestors name d groups declarations gateway links memory ps t t₁ t₂ t₃ _ _ hgateway hcalled
      hmemory hprompts ht p hp
    rcases List.mem_append.mp hp with hp | hp
    · rw [emitted_bindMemory hmemory] at hp
      exact hcalled (ht.bindGateway hgateway) p hp
    · cases List.mem_singleton.mp hp
      exact ⟨⟨links, groups, gives_prompts_ok hprompts⟩, t₂, t₃, hmemory⟩
  case nil =>
    intro chain t ht
    exact ht
  case cons =>
    intro chain delegation d rest name binds links t t₁ t₂ t' hname hfirst hrest ht
    obtain ⟨-, rfl⟩ := gives_moduleName.mp hname
    exact hrest (hfirst ht)

theorem allPrompted_compileRoot {o : Options} (h : Gives (compileRoot o d) {} () t) :
    AllPrompted (Scope.ofRoot o d.agent) t := by
  obtain ⟨binds, hcompile⟩ := gives_compileRoot h
  exact (allPrompted_compile _).1 _ _ _ _ _ _ hcompile fun p hp => absurd hp List.not_mem_nil

/-- A planned resource is called after its agent. -/
theorem isKeyChar_plannedMemory (name : String) :
    ∀ c ∈ (Provisioning.plannedMemory name).toList, Name.isKeyChar c :=
  Name.isKeyChar_append (Name.isKeyChar_snake name) (List.all_eq_true.mp (by decide))

/-- The memory of an agent is one that names no prompt, unless its region lets it in, or it sums up
sessions for an agent that remembers. -/
theorem mentions_memory {memory : MemoryBinding} {profile : Profile} {kind : PromptKind}
    (h : Gives (bindMemory s a name) t memory t')
    (hclosed : s.options.provisioner = none ∨ ¬memory.Reopened)
    (hmentions : Mentions (bare (memory.render profile.platform)) kind) :
    kind = .memorySummarization ∧ a.memoryEnabled := by
  have hdisabled : ¬Mentions (bare (MemoryBinding.disabled.render profile.platform)) kind := by
    rintro ⟨n, hname, hin⟩
    exact (isName_of_mem_names hname).ne_nil (List.infix_nil.mp hin)
  unfold bindMemory at h
  by_cases hmemory : a.memoryEnabled
  · refine ⟨?_, hmemory⟩
    rw [if_neg (by simp [hmemory])] at h
    by_cases hmanaged : s.primitives.memory
    · rw [if_pos hmanaged] at h
      obtain ⟨id, t₁, hask, h⟩ := gives_bind.mp h
      obtain ⟨rfl, -⟩ := gives_pure.mp h
      refine absurd (mentionsOnly_managed profile.platform ?_ kind hmentions) List.not_mem_nil
      refine hclosed.symm.imp (fun hregion hin => hregion ⟨id, a.region, rfl, hin⟩) fun hnone => ?_
      have hplanned := (gives_ask hask).1
      rw [Scope.provisioner, hnone] at hplanned
      cases hplanned
      exact isKeyChar_plannedMemory a.name
    · rw [if_neg hmanaged] at h
      obtain ⟨rfl, -⟩ := gives_pure.mp h
      unfold MemoryBinding.ofAgent at hmentions
      split at hmentions
      · rw [if_pos hmemory] at hmentions
        exact List.mem_singleton.mp (mentionsOnly_selfContained profile _ _ _ kind hmentions)
      · exact absurd hmentions hdisabled
  · rw [if_pos (by simp [hmemory])] at h
    obtain ⟨rfl, -⟩ := gives_pure.mp h
    exact absurd hmentions hdisabled

/-- In a run that goes through, every agent that is called has a module, and its prompts are in the order
of their kinds, without repetition: the one that leads the conversation always, those that sum up sessions
and choose a collaborator when the agent remembers or routes. All names of prompts in the conversation, in
the memory section and in the tool that runs code are assigned once, exactly when those in the memory
section are names of prompts of the module; and so it is without a provisioner of one's own, and wherever
the region of a resource does not hold the marker of its identifier. -/
theorem promptNames_assigned_iff {o : Options} {out : Output} (h : (run o d).result = .ok out) :
    ∃ t, out.files = t.emitted.map (Emission.file o.profile) ++ extraFiles o t ∧
      (Emission.plans t.emitted).map (·.definition) = d.postorder ∧
      ∀ p : ModulePlan, .agentModule p ∈ t.emitted →
        Listed p.definition (p.prompts.map (·.kind)) ∧
          (p.NamesAssigned o.profile ↔
            ∀ kind, p.MemoryMentions o.profile kind → kind ∈ p.prompts.map (·.kind)) ∧
          (o.provisioner = none ∨ ¬p.memory.Reopened →
            ∀ kind, p.MemoryMentions o.profile kind → kind ∈ p.prompts.map (·.kind)) := by
  obtain ⟨t, hgives, rfl⟩ := result_run_eq_ok.mp h
  obtain ⟨root, hcompiled, -⟩ := compiled_compileRoot hgives
  refine ⟨t, rfl, hcompiled.definitions, fun p hp => ?_⟩
  obtain ⟨⟨links, groups, hprompts⟩, t₁, t₂, hmemory⟩ := allPrompted_compileRoot hgives p hp
  have hlisted : Listed p.definition (p.prompts.map (·.kind)) := Prompt.listed_prompts rfl hprompts
  refine ⟨hlisted, ModulePlan.namesAssigned_iff hlisted, fun hclosed kind hmentions => ?_⟩
  obtain ⟨rfl, henabled⟩ := mentions_memory hmemory hclosed (ModulePlan.memoryMentions_iff.mp hmentions)
  exact hlisted.sumsUp.mpr henabled

theorem promptNames_assigned_oneKeeper :
    ∃ (out : Output) (t : State), (run {} oneKeeper).result = .ok out ∧
      (Emission.plans t.emitted).map (·.definition) = oneKeeper.postorder ∧
      ∀ p : ModulePlan, .agentModule p ∈ t.emitted → p.NamesAssigned .standard := by
  have hends : (run {} oneKeeper).result.isOk := by decide +kernel
  cases hrun : (run {} oneKeeper).result with
  | ok out =>
      obtain ⟨t, -, hdefinitions, hmodules⟩ := promptNames_assigned_iff hrun
      refine ⟨out, t, rfl, hdefinitions, fun p hp => ?_⟩
      obtain ⟨-, hiff, hclosed⟩ := hmodules p hp
      exact hiff.mpr (hclosed (.inl rfl))
  | error e =>
      rw [hrun] at hends
      cases hends

/-- Resources are called after the model of a prompt, and all else as planned. -/
def misnaming : Options where
  provisioner := some fun
    | _, .managedMemory _ _ _ => .ok " + llm_POST_PROCESSING + "
    | before, .gateway name region => Provisioning.planner before (.gateway name region)
    | before, .dispatchEndpoint f => Provisioning.planner before (.dispatchEndpoint f)
    | before, .gatewayTarget g target f => Provisioning.planner before (.gatewayTarget g target f)

/-- An agent that remembers in a resource, in a region that is called like the marker of its identifier. -/
def reopener : Definition :=
  .node { keeper "Nora" with
    region := "{{memory_id}}"
    primitives := { memory := true } } []

/-- The identifier closes the text of the region, and names the model of a prompt that the module has
not. -/
theorem promptNames_not_assigned_reopener :
    ∃ t, Gives (compileRoot misnaming reopener) {} () t ∧
      ∃ p : ModulePlan, .agentModule p ∈ t.emitted ∧
        p.Uses .standard PromptKind.postProcessing.handle ∧
        ¬p.AssignedOnce .standard PromptKind.postProcessing.handle := by
  obtain ⟨t, p, h, hcompiled⟩ := compiled_of_isOk (o := misnaming) (d := reopener) (by decide +kernel)
  have hplans : (Emission.plans ((compileRoot misnaming reopener).run.run {}).2.emitted).map
      (fun q => (q.memory, q.prompts.map (·.kind))) =
      [(.managed " + llm_POST_PROCESSING + " "{{memory_id}}",
        [.orchestration, .memorySummarization])] := by decide +kernel
  rw [h] at hplans
  have hplan := List.mem_map_of_mem (f := fun q : ModulePlan => (q.memory, q.prompts.map (·.kind)))
    (Emission.mem_plans.mpr hcompiled.mem)
  rw [hplans, List.mem_singleton, Prod.mk.injEq] at hplan
  obtain ⟨hmemory, hkinds⟩ := hplan
  refine ⟨t, h, p, hcompiled.mem, .inr (.inl ?_), fun honce => ?_⟩
  · refine ⟨_, ModulePlan.render_mem_memoryBlocks, ?_⟩
    rw [hmemory]
    decide +kernel
  · have hnodup : (p.prompts.map (·.kind)).Nodup := by
      rw [hkinds]
      decide
    have hmem := (ModulePlan.assignedOnce_iff hnodup List.mem_cons_self).mp honce
    rw [hkinds] at hmem
    exact absurd hmem (by decide)

end Compilation

end AgentCompiler
