import AgentCompiler.Proofs.Compilation.Service
import AgentCompiler.Proofs.Compilation.Tree
import AgentCompiler.Proofs.Tool.Standing

/-!
# Names of the tools of a run

The names of tools of action groups are made distinct and cut. Those of tools for knowledge bases and
collaborators are made from cleaned names, and are neither. `functionNames_nodup_iff` says when the
functions of a module have distinct names, and `toolNames_length_iff` when the names that a model gets
have at most 64 characters.
-/

namespace AgentCompiler

namespace Assembly

/-- What the name of a tool for a knowledge base starts with. -/
def retrievalStart : Profile → String
  | .langgraph => "retriever_tool_"
  | .strands => "retrieve_"

theorem retrievalTool_eq (profile : Profile) (k : KnowledgeBase) :
    retrievalTool profile k = retrievalStart profile ++ Name.snake k.name := by
  cases profile <;> rfl

theorem retrievalTool_inj {profile : Profile} {k k' : KnowledgeBase} :
    retrievalTool profile k = retrievalTool profile k' ↔ Name.snake k.name = Name.snake k'.name := by
  simp [retrievalTool_eq]

/-- The name under which a model gets the tool for a knowledge base. -/
def retrievalName (profile : Profile) (k : KnowledgeBase) : String :=
  match profile with
  | .langgraph => "kb_" ++ Name.snake k.name
  | .strands => retrievalTool .strands k

/-- The names of functions that are not made from the definition: those of built-in tools, and the two
entry points of a module. -/
def fixedNames (a : Agent) : List String :=
  (if a.hasBuiltin .userInput then ["user_input_tool"] else []) ++
    ((if a.hasBuiltin .codeInterpreter then ["code_tool"] else []) ++ ["get_agent", "invoke_agent"])

/-- The functions of built-in tools and the entry points are those for knowledge bases, and fixed ones. -/
theorem builtinTools_append (profile : Profile) (a : Agent) :
    builtinTools profile a ++ ["get_agent", "invoke_agent"] =
      a.knowledgeBases.map (retrievalTool profile) ++ fixedNames a := by
  simp only [builtinTools, fixedNames, List.append_assoc]

theorem mem_builtinTools {profile : Profile} {a : Agent} {name : String}
    (h : name ∈ builtinTools profile a) :
    (∃ k ∈ a.knowledgeBases, retrievalTool profile k = name) ∨ name ∈ fixedNames a := by
  have hall := List.mem_append_left ["get_agent", "invoke_agent"] h
  rw [builtinTools_append, List.mem_append, List.mem_map] at hall
  exact hall

theorem retrievalTool_mem_builtinTools {profile : Profile} {a : Agent} {k : KnowledgeBase}
    (hk : k ∈ a.knowledgeBases) : retrievalTool profile k ∈ builtinTools profile a :=
  List.mem_append_left _ (List.mem_append_left _ (List.mem_map_of_mem hk))

theorem mem_fixedNames {a : Agent} {name : String} (h : name ∈ fixedNames a) :
    name ∈ ["user_input_tool", "code_tool", "get_agent", "invoke_agent"] := by
  simp only [fixedNames, List.mem_append] at h
  rcases h with h | h | h
  · split at h
    · exact List.mem_append_left _ h
    · cases h
  · split at h
    · exact List.mem_cons_of_mem _ (List.mem_append_left _ h)
    · cases h
  · exact List.mem_cons_of_mem _ (List.mem_cons_of_mem _ h)

theorem nodup_fixedNames (a : Agent) : (fixedNames a).Nodup := by
  unfold fixedNames
  cases a.hasBuiltin .userInput <;> cases a.hasBuiltin .codeInterpreter <;> decide

theorem length_fixedNames {a : Agent} {name : String} (h : name ∈ fixedNames a) :
    name.length ≤ Name.toolBudget := by
  have hall : ∀ n ∈ ["user_input_tool", "code_tool", "get_agent", "invoke_agent"],
      n.length ≤ Name.toolBudget := by decide
  exact hall name (mem_fixedNames h)

theorem retrievalTool_ne_fixedNames (profile : Profile) (k : KnowledgeBase) {a : Agent} {name : String}
    (h : name ∈ fixedNames a) : retrievalTool profile k ≠ name := by
  have hall : ∀ n ∈ ["user_input_tool", "code_tool", "get_agent", "invoke_agent"],
      n.toList.head? ≠ some 'r' := by decide
  intro heq
  refine hall name (mem_fixedNames h) ?_
  rw [← heq, retrievalTool_eq, String.toList_append]
  cases profile <;> rfl

end Assembly

namespace ModulePlan

open Assembly

/-- The names of the functions for tools that a module defines, and of its two entry points. -/
def functionNames (profile : Profile) (p : ModulePlan) : List String :=
  p.tools.map (·.name) ++ (builtinTools profile p.agent ++ ["get_agent", "invoke_agent"])

theorem functionNames_eq (profile : Profile) (p : ModulePlan) : p.functionNames profile =
    p.tools.map (·.name) ++
      (p.agent.knowledgeBases.map (retrievalTool profile) ++ fixedNames p.agent) := by
  rw [functionNames, builtinTools_append]

/-- The names of the tools that a module hands to its model. -/
def toolNames (profile : Profile) (p : ModulePlan) : List String :=
  p.tools.map (·.name) ++ (p.otherTools profile ++ p.agent.knowledgeBases.map (retrievalName profile))

end ModulePlan

namespace Compilation

open Assembly Gateway

variable {s : Scope} {p : ModulePlan} {function : Option Gateway.Dispatch}

/-- The tools that stand in a module have the names that are handed out, cut. -/
theorem Planned.names (h : Planned s p function) : p.tools.map (·.name) =
    (Tool.standingNames p.agent.customGroups s.primitives.gateway).map fun n =>
      Name.prune n Name.toolBudget := by
  obtain ⟨groups, registry, hsynthesize, hgroups, -⟩ := h.tools
  rw [ModulePlan.tools, hgroups]
  exact Tool.names_synthesize hsynthesize

/-! ## Distinct names -/

/-- The names of an agent from which the names of its module's functions are made do not meet. -/
structure ToolsApart (profile : Profile) (a : Agent) (gateway : Bool) : Prop where
  cut : ∀ m ∈ Tool.standingNames a.customGroups gateway,
    ∀ n ∈ Tool.standingNames a.customGroups gateway, Name.CutAlike Name.toolBudget m n → m = n
  knowledge : (a.knowledgeBases.map fun k => Name.snake k.name).Nodup
  retrieval : ∀ n ∈ Tool.standingNames a.customGroups gateway, ∀ k ∈ a.knowledgeBases,
    Name.prune n Name.toolBudget ≠ retrievalTool profile k
  fixed : ∀ n ∈ Tool.standingNames a.customGroups gateway, n ∉ fixedNames a

theorem Planned.nodup_functionNames (h : Planned s p function) (profile : Profile) :
    (p.functionNames profile).Nodup ↔ ToolsApart profile p.agent s.primitives.gateway := by
  rw [p.functionNames_eq, h.names, List.nodup_append, List.nodup_append,
    List.nodup_map_iff_inj_on (Tool.nodup_standingNames _ _)]
  constructor
  · rintro ⟨hcut, ⟨hknowledge, -, -⟩, hmeet⟩
    constructor
    · exact fun m hm n hn h => hcut m hm n hn (Name.prune_eq_prune_iff.mpr (.inr h))
    · rw [List.Nodup, List.pairwise_map] at hknowledge ⊢
      exact hknowledge.imp fun h heq => h (retrievalTool_inj.mpr heq)
    · intro n hn k hk
      exact hmeet _ (List.mem_map_of_mem hn) _ (List.mem_append_left _ (List.mem_map_of_mem hk))
    · intro n hn hfixed
      refine hmeet _ (List.mem_map_of_mem hn) _ (List.mem_append_right _ hfixed) ?_
      exact (Name.prune_eq_iff_of_length_le (length_fixedNames hfixed)).mpr rfl
  · rintro ⟨hcut, hknowledge, hretrieval, hfixed⟩
    refine ⟨?_, ⟨?_, nodup_fixedNames _, ?_⟩, ?_⟩
    · intro m hm n hn heq
      exact (Name.prune_eq_prune_iff.mp heq).elim id (hcut m hm n hn)
    · rw [List.Nodup, List.pairwise_map] at hknowledge ⊢
      exact hknowledge.imp fun h heq => h (retrievalTool_inj.mp heq)
    · intro name hname name' hname'
      obtain ⟨k, -, rfl⟩ := List.mem_map.mp hname
      exact retrievalTool_ne_fixedNames profile k hname'
    · intro name hname name' hname'
      obtain ⟨n, hn, rfl⟩ := List.mem_map.mp hname
      rcases List.mem_append.mp hname' with hname' | hname'
      · obtain ⟨k, hk, rfl⟩ := List.mem_map.mp hname'
        exact hretrieval n hn k hk
      · intro heq
        rw [(Name.prune_eq_iff_of_length_le (length_fixedNames hname')).mp heq] at hn
        exact hfixed name' hn hname'

/-- In every module of a run, the functions for tools and the two entry points have distinct names
exactly when no names of the agent meet: the names of its knowledge bases are distinct once cleaned, and
no tool of its groups is cut to the name of another one or named like another function. -/
theorem functionNames_nodup_iff {o : Options} {d : Definition} {t : State}
    (h : Gives (compileRoot o d) {} () t) :
    ∀ p : ModulePlan, .agentModule p ∈ t.emitted →
      ((p.functionNames o.profile).Nodup ↔
        ToolsApart o.profile p.agent (Scope.ofRoot o d.agent).primitives.gateway) := by
  intro p hp
  obtain ⟨root, hcompiled, -⟩ := compiled_compileRoot h
  obtain ⟨function, hplanned⟩ := hcompiled.planned hp
  exact hplanned.nodup_functionNames o.profile

/-- An agent with tools of its own, a built-in tool and a knowledge base, whose names are apart. -/
def librarian : Definition :=
  .node { supervisor "Lead" with
    actionGroups :=
      [{ name := "Shelf", schema := some (.functions [{ name := "find" }]) },
       { name := "Questions", builtin := some .userInput }]
    knowledgeBases := [{ name := "Docs", id := "KB1" }] } []

/-- An agent with two knowledge bases whose names differ in a capital. -/
def twoArchives : Definition :=
  .node { supervisor "Lead" with
    knowledgeBases := [{ name := "Docs", id := "KB1" }, { name := "docs", id := "KB2" }] } []

theorem standingNames_librarian :
    Tool.standingNames librarian.agent.customGroups false = ["shelf_find"] := by decide +kernel

theorem functionNames_nodup_librarian :
    ∃ t, Gives (compileRoot {} librarian) {} () t ∧
      ∃ p : ModulePlan, .agentModule p ∈ t.emitted ∧ p.definition = librarian ∧
        (p.functionNames .standard).Nodup := by
  obtain ⟨t, p, h, hcompiled⟩ : ∃ t p, Gives (compileRoot {} librarian) {} () t ∧
      Compiled (Scope.ofRoot {} librarian.agent) true librarian t.emitted p :=
    compiled_of_isOk (by decide +kernel)
  refine ⟨t, h, p, hcompiled.mem, hcompiled.definition_eq, ?_⟩
  have hnames : Tool.standingNames p.agent.customGroups
      (Scope.ofRoot {} librarian.agent).primitives.gateway = ["shelf_find"] := by
    rw [hcompiled.agent_eq]
    exact standingNames_librarian
  refine (functionNames_nodup_iff h p hcompiled.mem).mpr ⟨?_, ?_, ?_, ?_⟩
  · rw [hnames]
    intro m hm n hn _
    rw [List.mem_singleton.mp hm, List.mem_singleton.mp hn]
  · rw [hcompiled.agent_eq]
    exact List.nodup_singleton _
  · rw [hnames, hcompiled.agent_eq]
    decide +kernel
  · rw [hnames, hcompiled.agent_eq]
    decide +kernel

/-- Knowledge bases with names that are cleaned alike get tools of one name. -/
theorem functionNames_not_nodup_twoArchives :
    ∃ t, Gives (compileRoot {} twoArchives) {} () t ∧
      ∃ p : ModulePlan, .agentModule p ∈ t.emitted ∧ p.definition = twoArchives ∧
        ¬(p.functionNames .langgraph).Nodup ∧ ¬(p.functionNames .strands).Nodup := by
  obtain ⟨t, p, h, hcompiled⟩ : ∃ t p, Gives (compileRoot {} twoArchives) {} () t ∧
      Compiled (Scope.ofRoot {} twoArchives.agent) true twoArchives t.emitted p :=
    compiled_of_isOk (by decide +kernel)
  obtain ⟨function, hplanned⟩ := hcompiled.planned hcompiled.mem
  have hrepeated (profile : Profile) : ¬(p.functionNames profile).Nodup := by
    intro hnodup
    have hknowledge := ((hplanned.nodup_functionNames profile).mp hnodup).knowledge
    rw [hcompiled.agent_eq] at hknowledge
    exact absurd hknowledge (by decide +kernel)
  exact ⟨t, h, p, hcompiled.mem, hcompiled.definition_eq, hrepeated _, hrepeated _⟩

/-! ## Short names -/

/-- The most characters of the cleaned name of a knowledge base whose tool has a short name. -/
def retrievalRoom : Profile → Nat
  | .langgraph => 49
  | .strands => 55

/-- The most characters of the cleaned name of a collaborator whose tool has a short name. -/
def delegateRoom : Nat := 57

theorem length_retrievalTool_le_iff (profile : Profile) (k : KnowledgeBase) :
    (retrievalTool profile k).length ≤ Name.maxLength ↔
      (Name.snake k.name).length ≤ retrievalRoom profile := by
  have hgraph : ("retriever_tool_" : String).length = 15 := by decide
  have hloop : ("retrieve_" : String).length = 9 := by decide
  rw [retrievalTool_eq, String.length_append, Name.maxLength]
  cases profile with
  | langgraph =>
      rw [retrievalStart, hgraph, retrievalRoom]
      omega
  | strands =>
      rw [retrievalStart, hloop, retrievalRoom]
      omega

theorem length_retrievalName_le {profile : Profile} {k : KnowledgeBase}
    (h : (retrievalTool profile k).length ≤ Name.maxLength) :
    (retrievalName profile k).length ≤ Name.maxLength := by
  cases profile with
  | langgraph =>
      have hstart : ("kb_" : String).length = 3 := by decide
      have hroom := (length_retrievalTool_le_iff .langgraph k).mp h
      rw [retrievalRoom] at hroom
      rw [retrievalName, String.length_append, hstart, Name.maxLength]
      omega
  | strands => exact h

theorem length_delegate_le_iff (name : String) :
    ("invoke_" ++ name).length ≤ Name.maxLength ↔ name.length ≤ delegateRoom := by
  have hstart : ("invoke_" : String).length = 7 := by decide
  rw [String.length_append, hstart, Name.maxLength, delegateRoom]
  omega

/-- When the tools for action groups have short names, all that a module hands to its model have short
names exactly when those for knowledge bases and collaborators do. -/
theorem forall_toolNames_iff {profile : Profile}
    (htools : ∀ tool ∈ p.tools, tool.name.length ≤ Name.maxLength) :
    (∀ name ∈ p.toolNames profile, name.length ≤ Name.maxLength) ↔
      (∀ k ∈ p.agent.knowledgeBases, (Name.snake k.name).length ≤ retrievalRoom profile) ∧
        ∀ l ∈ p.links, l.name.length ≤ delegateRoom := by
  simp only [ModulePlan.toolNames, ModulePlan.otherTools, List.forall_mem_append, List.forall_mem_map]
  constructor
  · rintro ⟨-, ⟨hbuiltin, hlinks⟩, -⟩
    refine ⟨fun k hk => ?_, fun l hl => ?_⟩
    · apply (length_retrievalTool_le_iff profile k).mp
      exact hbuiltin _ (retrievalTool_mem_builtinTools hk)
    · apply (length_delegate_le_iff l.name).mp
      exact hlinks l hl
  · rintro ⟨hknowledge, hlinks⟩
    have hretrieval : ∀ k ∈ p.agent.knowledgeBases,
        (retrievalTool profile k).length ≤ Name.maxLength :=
      fun k hk => (length_retrievalTool_le_iff profile k).mpr (hknowledge k hk)
    refine ⟨htools, ⟨fun name hname => ?_, fun l hl => ?_⟩, fun k hk => ?_⟩
    · rcases mem_builtinTools hname with ⟨k, hk, rfl⟩ | hfixed
      · exact hretrieval k hk
      · exact Nat.le_trans (length_fixedNames hfixed) (by decide)
    · show ("invoke_" ++ l.name).length ≤ Name.maxLength
      exact (length_delegate_le_iff l.name).mpr (hlinks l hl)
    · -- The name for the model is the shorter one of the two.
      exact length_retrievalName_le (hretrieval k hk)

theorem Planned.length_tool_le (h : Planned s p function) {tool : Tool} (htool : tool ∈ p.tools) :
    tool.name.length ≤ Name.toolBudget + 7 := by
  have hname : tool.name ∈ p.tools.map (·.name) := List.mem_map_of_mem htool
  rw [h.names] at hname
  obtain ⟨n, -, hn⟩ := List.mem_map.mp hname
  rw [← hn]
  exact Name.length_prune_le n Name.toolBudget

/-- A function behind a gateway has short keys. -/
theorem Planned.length_key_le {f : Gateway.Dispatch} (h : Planned s p (some f)) {route : Route}
    (hroute : route ∈ f.routes) : route.key.length ≤ Name.maxLength := by
  obtain ⟨groups, registry, hsynthesize, -, hfunction⟩ := h.tools
  obtain ⟨plan, hplan, rfl⟩ := Option.map_eq_some_iff.mp hfunction.symm
  obtain ⟨hon, rfl⟩ := plan_of_some hplan
  rw [hon] at hsynthesize
  have hplanned : route ∈ (Tool.plan p.agent.customGroups).flatMap plannedRoutes := by
    rw [← routes_synthesize hsynthesize]
    exact hroute
  exact (key_spec (List.mem_map_of_mem hplanned)).1

/-- In every run, a tool has a short name that stands in a module for an action group, or that a gateway
serves. The names that a module hands to its model are all short exactly when the cleaned names of the
agent's knowledge bases and of the collaborators that it calls leave room for what is put in front. -/
theorem toolNames_length_iff {o : Options} {d : Definition} {t : State}
    (h : Gives (compileRoot o d) {} () t) :
    (∀ f : Gateway.Dispatch, .dispatch f ∈ t.emitted →
        ∀ route ∈ f.routes, route.key.length ≤ Name.maxLength) ∧
      ∀ p : ModulePlan, .agentModule p ∈ t.emitted →
        (∀ tool ∈ p.tools, tool.name.length ≤ Name.maxLength) ∧
          ((∀ name ∈ p.toolNames o.profile, name.length ≤ Name.maxLength) ↔
            (∀ k ∈ p.agent.knowledgeBases, (Name.snake k.name).length ≤ retrievalRoom o.profile) ∧
              ∀ name ∈ p.definition.calledNames, name.length ≤ delegateRoom) := by
  obtain ⟨root, hcompiled, -⟩ := compiled_compileRoot h
  refine ⟨fun f hf route hroute => ?_, fun p hp => ?_⟩
  · obtain ⟨q, hplanned⟩ := hcompiled.planned_dispatch hf
    exact hplanned.length_key_le hroute
  obtain ⟨function, hplanned⟩ := hcompiled.planned hp
  have htools : ∀ tool ∈ p.tools, tool.name.length ≤ Name.maxLength := fun tool htool =>
    Nat.le_trans (hplanned.length_tool_le htool) (by decide)
  refine ⟨htools, ?_⟩
  obtain ⟨_, _, hpart⟩ := hcompiled.part hp
  rw [forall_toolNames_iff htools, ← hpart.names, List.forall_mem_map]

/-- An agent with a knowledge base of a long name. -/
def talkativeArchive : Definition :=
  .node { supervisor "Lead" with
    knowledgeBases :=
      [{ name := "Everything that visitors of the harbour wrote about stray animals last year",
         id := "KB1" }] } []

theorem toolNames_length_librarian :
    ∃ t, Gives (compileRoot {} librarian) {} () t ∧
      ∃ p : ModulePlan, .agentModule p ∈ t.emitted ∧ p.definition = librarian ∧
        ∀ name ∈ p.toolNames .standard, name.length ≤ Name.maxLength := by
  obtain ⟨t, p, h, hcompiled⟩ : ∃ t p, Gives (compileRoot {} librarian) {} () t ∧
      Compiled (Scope.ofRoot {} librarian.agent) true librarian t.emitted p :=
    compiled_of_isOk (by decide +kernel)
  refine ⟨t, h, p, hcompiled.mem, hcompiled.definition_eq, ?_⟩
  refine (((toolNames_length_iff h).2 p hcompiled.mem).2).mpr ⟨?_, ?_⟩
  · rw [hcompiled.agent_eq]
    decide +kernel
  · rw [hcompiled.definition_eq]
    decide +kernel

/-- The name that a model gets for a knowledge base grows with the name of the knowledge base. -/
theorem toolNames_long_talkativeArchive :
    ∃ t, Gives (compileRoot {} talkativeArchive) {} () t ∧
      ∃ p : ModulePlan, .agentModule p ∈ t.emitted ∧ p.definition = talkativeArchive ∧
        ∀ profile, ∃ name ∈ p.toolNames profile, Name.maxLength < name.length := by
  obtain ⟨t, p, h, hcompiled⟩ : ∃ t p, Gives (compileRoot {} talkativeArchive) {} () t ∧
      Compiled (Scope.ofRoot {} talkativeArchive.agent) true talkativeArchive t.emitted p :=
    compiled_of_isOk (by decide +kernel)
  refine ⟨t, h, p, hcompiled.mem, hcompiled.definition_eq, fun profile => ?_⟩
  have hlong : ∃ name ∈ talkativeArchive.agent.knowledgeBases.map (retrievalName profile),
      Name.maxLength < name.length := by
    cases profile <;> decide +kernel
  obtain ⟨name, hname, hlong⟩ := hlong
  rw [← hcompiled.agent_eq] at hname
  exact ⟨name, List.mem_append_right _ (List.mem_append_right _ hname), hlong⟩

end Compilation

end AgentCompiler
