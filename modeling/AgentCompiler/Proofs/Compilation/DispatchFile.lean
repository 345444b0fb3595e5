import AgentCompiler.Proofs.Command.Writing
import AgentCompiler.Proofs.Compilation.Failure
import AgentCompiler.Proofs.Compilation.OutputFile
import AgentCompiler.Proofs.Tool.Standing

/-!
# The files of dispatch functions

The function behind an agent's gateway is called after the agent, and its name is not numbered. So the
functions of two agents have one file when their names are cleaned or cut alike, and a function may have
the file of a module. Of several files with one path only the last one stays.
-/

namespace AgentCompiler

/-- Whether an agent has an operation behind a remote function. -/
def Agent.isBacked (a : Agent) : Bool :=
  (Gateway.operations a.customGroups).any fun e => e.1.functionRef?.isSome

/-- What the dispatch function of an agent is called, before the name is cut. -/
def Agent.proxyName (a : Agent) : String := Name.snake a.name ++ "_gateway_proxy"

/-- The dispatch functions of two agents get one name. -/
def Agent.SameProxy (a b : Agent) : Prop :=
  Name.snake a.name = Name.snake b.name ∨
    64 < a.proxyName.length ∧ 64 < b.proxyName.length ∧ Name.CutAlike 57 a.proxyName b.proxyName

/-! ## Names of dispatch functions -/

namespace Name

/-- A name that is cut ends in its digest, and not in what the names of dispatch functions end in. -/
theorem proxyName_ne_prune {a : Agent} {name : String} (h : 57 < name.length) :
    a.proxyName ≠ prune name 57 := by
  intro heq
  have hchars := congrArg String.toList heq
  have hend : a.proxyName.toList = ((snake a.name).toList ++ "_gateway".toList) ++ "_proxy".toList := by
    simp [Agent.proxyName]
  have hdigest : (prune name 57).toList = (name.toList.take 57 ++ ['_']) ++ (digest name).toList := by
    rw [toList_prune_of_lt h]
    simp
  rw [hend, hdigest] at hchars
  have hsame := List.append_inj_right' hchars (by
    rw [String.length_toList, String.length_toList, (digest_spec name).1]
    rfl)
  have hunder : '_' ∈ (digest name).toList := by
    rw [← hsame]
    decide
  exact ne_underscore_of_isWordChar ((digest_spec name).2 _ hunder) rfl

/-- Two names that do not end in a digest are cut to one name when they are the same, or both too long
and cut alike. -/
theorem bound_eq_bound_iff {m n : String} (hm : ∀ name : String, 57 < name.length → m ≠ prune name 57)
    (hn : ∀ name : String, 57 < name.length → n ≠ prune name 57) :
    bound m maxLength = bound n maxLength ↔
      m = n ∨ 64 < m.length ∧ 64 < n.length ∧ CutAlike 57 m n := by
  rcases Nat.lt_or_ge 64 m.length with hlong | hshort
  · rw [bound_of_lt_length hlong]
    rcases Nat.lt_or_ge 64 n.length with hlong' | hshort'
    · rw [bound_of_lt_length hlong', prune_eq_prune_iff]
      simp [hlong, hlong']
    · rw [bound_of_length_le hshort']
      have hne : m ≠ n := fun heq => absurd (heq ▸ hlong) (by omega)
      have hcut := hn m (by omega)
      exact iff_of_false hcut.symm (by simp [hne, hshort'])
  · rw [bound_of_length_le hshort]
    rcases Nat.lt_or_ge 64 n.length with hlong' | hshort'
    · rw [bound_of_lt_length hlong']
      have hne : m ≠ n := fun heq => absurd (heq ▸ hlong') (by omega)
      have hcut := hm n (by omega)
      exact iff_of_false hcut (by simp [hne, hshort])
    · rw [bound_of_length_le hshort']
      simp [hshort]

/-- Two dispatch functions have one name when those of their agents are cleaned or cut alike. -/
theorem bound_proxyName_eq_iff {a b : Agent} :
    bound a.proxyName maxLength = bound b.proxyName maxLength ↔ a.SameProxy b := by
  have hsnake : a.proxyName = b.proxyName ↔ snake a.name = snake b.name := String.append_left_inj _
  rw [bound_eq_bound_iff (fun _ => proxyName_ne_prune) (fun _ => proxyName_ne_prune), hsnake]
  rfl

end Name

/-- The dispatch functions that are emitted, in order. -/
def Emission.dispatches (es : List Emission) : List Gateway.Dispatch :=
  es.filterMap fun
    | .dispatch f => some f
    | .agentModule _ => none

namespace Emission

@[simp]
theorem dispatches_append (es es' : List Emission) :
    dispatches (es ++ es') = dispatches es ++ dispatches es' := List.filterMap_append

@[simp]
theorem dispatches_singleton (p : ModulePlan) : dispatches [.agentModule p] = [] := rfl

@[simp]
theorem dispatches_map (functions : List Gateway.Dispatch) :
    dispatches (functions.map .dispatch) = functions := by
  rw [dispatches, List.filterMap_map]
  exact List.filterMap_some

theorem mem_dispatches {es : List Emission} {f : Gateway.Dispatch} :
    f ∈ dispatches es ↔ .dispatch f ∈ es := by
  rw [dispatches, List.mem_filterMap]
  constructor
  · rintro ⟨e, he, hf⟩
    cases e with
    | dispatch g =>
        cases hf
        exact he
    | agentModule p => cases hf
  · exact fun h => ⟨_, h, rfl⟩

end Emission

namespace Compilation

open Emission Files OutputFile

/-- The plan for the gateway of an agent. -/
def Scope.plan? (s : Scope) (a : Agent) : Option Gateway.Plan :=
  ((Tool.synthesize a.customGroups s.primitives.gateway).run {}).bind fun tools =>
    gatewayPlan? s a tools.1

/-- The function behind the gateway of an agent. -/
def Scope.dispatch? (s : Scope) (a : Agent) : Option Gateway.Dispatch := (s.plan? a).map (·.dispatch)

section

variable {s : Scope} {a b : Agent} {f g : Gateway.Dispatch}

theorem Planned.dispatch?_eq {p : ModulePlan} {function : Option Gateway.Dispatch}
    (h : Planned s p function) : s.dispatch? p.agent = function := by
  obtain ⟨groups, registry, hsynthesize, -, rfl⟩ := h.tools
  rw [Scope.dispatch?, Scope.plan?, hsynthesize]
  rfl

theorem routes_ne_nil_iff {groups : List ToolGroup} {registry : Registry}
    (h : (Tool.synthesize a.customGroups s.primitives.gateway).run {} = some (groups, registry)) :
    Gateway.routes groups ≠ [] ↔ a.isBacked := by
  have hoffers := Gateway.offers_synthesize h
  have hbacked : Gateway.routes groups ≠ [] ↔
      ∃ e ∈ Gateway.toolsOf groups, e.1.functionRef.isSome := by
    have hlength := (Gateway.leads_routes groups).length_eq
    rw [Gateway.backed, Gateway.toolsOf_filter fun g => g.functionRef.isSome] at hlength
    rw [← List.length_pos_iff, ← hlength, List.length_pos_iff, Ne, List.filter_eq_nil_iff]
    push Not
    rfl
  have hrefs : (Gateway.operations a.customGroups).map (fun e => e.1.functionRef?) =
      (Gateway.toolsOf groups).map fun e => e.1.functionRef := by
    rw [← List.forall₂_eq_eq_eq, List.forall₂_map_left_iff, List.forall₂_map_right_iff]
    exact hoffers.imp fun _ _ hoffer => hoffer.functionRef.symm
  have hmem := congrArg (fun refs : List (Option String) => refs.any (·.isSome)) hrefs
  simp only [List.any_map] at hmem
  rw [hbacked, Agent.isBacked, ← List.any_eq_true]
  exact iff_of_eq (congrArg (· = true) hmem.symm)

/-- There is a plan exactly when tools are served through gateways and the agent has an operation behind
a remote function. -/
theorem plan?_isSome_iff (h : Synthesizes s a) :
    (s.plan? a).isSome ↔ s.primitives.gateway ∧ a.isBacked := by
  obtain ⟨⟨groups, registry⟩, hrun⟩ := Option.ne_none_iff_exists'.mp h
  rw [Scope.plan?, hrun, Option.bind_some, gatewayPlan?, ← routes_ne_nil_iff hrun]
  by_cases hon : s.primitives.gateway
  · rw [if_pos hon, Gateway.plan?]
    by_cases hroutes : Gateway.routes groups = []
    · simp [hroutes]
    · simp [hroutes, hon]
  · simp [hon]

theorem name_ofAgent (a : Agent) (rs : List Gateway.Route) :
    (Gateway.Dispatch.ofAgent a rs).name = Name.bound a.proxyName Name.maxLength := by
  simp only [Gateway.Dispatch.ofAgent, Agent.proxyName]

theorem name_of_dispatch? (h : s.dispatch? a = some f) : f.name = Name.bound a.proxyName Name.maxLength := by
  obtain ⟨plan, htools, rfl⟩ := Option.map_eq_some_iff.mp h
  obtain ⟨tools, -, hplan⟩ := Option.bind_eq_some_iff.mp htools
  obtain ⟨-, rfl⟩ := plan_of_some hplan
  exact name_ofAgent a _

theorem fileName_eq_iff (hf : s.dispatch? a = some f) (hg : s.dispatch? b = some g) :
    f.fileName = g.fileName ↔ a.SameProxy b := by
  rw [Gateway.Dispatch.fileName, Gateway.Dispatch.fileName, String.append_left_inj,
    name_of_dispatch? hf, name_of_dispatch? hg, Name.bound_proxyName_eq_iff]

end

mutual
/-- The functions that are emitted are those of the agents that are called. -/
theorem Compiled.dispatches_perm {s : Scope} : ∀ {top : Bool} {d : Definition} {es : List Emission}
    {p : ModulePlan}, Compiled s top d es p →
      (dispatches es).Perm (d.postorder.filterMap fun e => s.dispatch? e.agent)
  | _, d, _, p, @Compiled.node _ _ _ _ function _ planned _ definition called => by
      have hown : [d].filterMap (fun e => s.dispatch? e.agent) = function.toList := by
        rw [← planned.dispatch?_eq, ModulePlan.agent, definition]
        cases hfunction : s.dispatch? d.agent <;> simp [hfunction]
      rw [dispatches_append, dispatches_append, dispatches_map, dispatches_singleton, List.append_nil,
        Definition.postorder_eq, List.filterMap_append, hown]
      exact List.perm_append_comm.trans (called.dispatches_perm.append_right _)
theorem CompiledAll.dispatches_perm {s : Scope} : ∀ {cs : List (Delegation × Definition)}
    {links : List Link} {es : List Emission}, CompiledAll s cs links es →
      (dispatches es).Perm ((cs.flatMap fun c => c.2.postorder).filterMap fun e => s.dispatch? e.agent)
  | _, _, _, .nil => .refl _
  | _, _, _, .cons head _ tail => by
      rw [dispatches_append, List.flatMap_cons, List.filterMap_append]
      exact head.dispatches_perm.append tail.dispatches_perm
end

/-! ## The files of a run -/

/-- The agents with operations behind remote functions, when tools are served through gateways. -/
def Scope.served (s : Scope) (d : Definition) : List Agent :=
  if s.primitives.gateway then (d.postorder.map Definition.agent).filter Agent.isBacked else []

/-- Different agents have functions of different names, and no module has the name of a function. -/
structure ProxiesApart (served : List Agent) (modules : List String) : Prop where
  agents : ∀ a ∈ served, ∀ b ∈ served, a ≠ b → ¬a.SameProxy b
  modules : ∀ a ∈ served, Name.bound a.proxyName Name.maxLength ∉ modules

/-- The functions of different agents are in different files, and none is in the file of a module. -/
structure FilesApart (s : Scope) (d : Definition) (es : List Emission) : Prop where
  agents : ∀ e ∈ d.postorder, ∀ e' ∈ d.postorder, e.agent ≠ e'.agent →
    ∀ f g, s.dispatch? e.agent = some f → s.dispatch? e'.agent = some g → f.fileName ≠ g.fileName
  modules : ∀ f ∈ dispatches es, ∀ p ∈ plans es, f.fileName ≠ p.fileName

section

variable {s : Scope} {d : Definition} {es : List Emission} {p : ModulePlan}

/-- The tools of every agent that is called are made in a run that goes through. -/
theorem Compiled.synthesizes {top : Bool} (h : Compiled s top d es p) {e : Definition}
    (he : e ∈ d.postorder) : Synthesizes s e.agent := by
  rw [← h.definitions] at he
  obtain ⟨q, hq, rfl⟩ := List.mem_map.mp he
  obtain ⟨function, hplanned⟩ := h.planned (mem_plans.mp hq)
  obtain ⟨groups, registry, hsynthesize, -⟩ := hplanned.tools
  exact Option.ne_none_iff_exists'.mpr ⟨_, hsynthesize⟩

theorem Compiled.mem_served_iff {top : Bool} (h : Compiled s top d es p) {a : Agent} :
    a ∈ s.served d ↔ ∃ e ∈ d.postorder, e.agent = a ∧ ∃ f, s.dispatch? a = some f := by
  have hmade {e : Definition} (he : e ∈ d.postorder) :
      (∃ f, s.dispatch? e.agent = some f) ↔ s.primitives.gateway ∧ e.agent.isBacked := by
    rw [← Option.isSome_iff_exists, Scope.dispatch?, Option.isSome_map,
      plan?_isSome_iff (h.synthesizes he)]
  unfold Scope.served
  constructor
  · intro ha
    split at ha
    · next hon =>
        obtain ⟨hagent, hbacked⟩ := List.mem_filter.mp ha
        obtain ⟨e, he, rfl⟩ := List.mem_map.mp hagent
        exact ⟨e, he, rfl, (hmade he).mpr ⟨hon, hbacked⟩⟩
    · cases ha
  · rintro ⟨e, he, rfl, hfunction⟩
    obtain ⟨hon, hbacked⟩ := (hmade he).mp hfunction
    rw [if_pos hon]
    exact List.mem_filter.mpr ⟨List.mem_map_of_mem he, hbacked⟩

/-- A function that is emitted is that of an agent that is called. -/
theorem Compiled.exists_dispatch? {top : Bool} (h : Compiled s top d es p) {f : Gateway.Dispatch}
    (hf : f ∈ dispatches es) : ∃ e ∈ d.postorder, s.dispatch? e.agent = some f := by
  exact List.mem_filterMap.mp (h.dispatches_perm.mem_iff.mp hf)

/-- Files are apart when names are. -/
theorem Compiled.filesApart_iff {top : Bool} (h : Compiled s top d es p) :
    FilesApart s d es ↔ ProxiesApart (s.served d) ((plans es).map (·.name)) := by
  constructor
  · rintro ⟨hagents, hmodules⟩
    constructor
    · intro a ha b hb hne hsame
      obtain ⟨e, he, rfl, f, hf⟩ := h.mem_served_iff.mp ha
      obtain ⟨e', he', rfl, g, hg⟩ := h.mem_served_iff.mp hb
      exact hagents e he e' he' hne f g hf hg ((fileName_eq_iff hf hg).mpr hsame)
    · intro a ha hmem
      obtain ⟨e, he, rfl, f, hf⟩ := h.mem_served_iff.mp ha
      obtain ⟨q, hq, hname⟩ := List.mem_map.mp hmem
      have hemitted : f ∈ dispatches es := h.dispatches_perm.mem_iff.mpr (List.mem_filterMap.mpr ⟨e, he, hf⟩)
      refine hmodules f hemitted q hq ?_
      rw [Gateway.Dispatch.fileName, ModulePlan.fileName, name_of_dispatch? hf, hname]
  · rintro ⟨hagents, hmodules⟩
    constructor
    · intro e he e' he' hne f g hf hg heq
      refine hagents _ (h.mem_served_iff.mpr ⟨e, he, rfl, f, hf⟩) _
        (h.mem_served_iff.mpr ⟨e', he', rfl, g, hg⟩) hne ((fileName_eq_iff hf hg).mp heq)
    · intro f hf q hq heq
      obtain ⟨e, he, hfunction⟩ := h.exists_dispatch? hf
      refine hmodules _ (h.mem_served_iff.mpr ⟨e, he, rfl, f, hfunction⟩) (List.mem_map.mpr ⟨q, hq, ?_⟩)
      rw [Gateway.Dispatch.fileName, ModulePlan.fileName, String.append_left_inj,
        name_of_dispatch? hfunction] at heq
      exact heq.symm

end

section

variable {o : Options} {d : Definition} {t : State}

/-- No other file of a run takes the place of a function whose file is apart. -/
theorem FilesApart.mem_lasting (h : Gives (compileRoot o d) {} () t)
    (hapart : FilesApart (.ofRoot o d.agent) d t.emitted) {f : Gateway.Dispatch}
    (hf : f ∈ dispatches t.emitted) : ⟨f.fileName, f.source⟩ ∈ lasting (t.output o).files := by
  obtain ⟨root, hcompiled, -⟩ := compiled_compileRoot h
  have hemitted := mem_dispatches.mp hf
  have hwritten : ⟨f.fileName, f.source⟩ ∈ (t.output o).files :=
    List.mem_append_left _ (List.mem_map_of_mem hemitted)
  refine OutputFile.mem_lasting hwritten ?_
  intro file hfile hpath
  rcases List.mem_append.mp hfile with hfile | hfile
  · obtain ⟨emission, hemission, rfl⟩ := List.mem_map.mp hfile
    cases emission with
    | dispatch g =>
        obtain ⟨e, he, hfunction⟩ := hcompiled.exists_dispatch? hf
        obtain ⟨e', he', hfunction'⟩ := hcompiled.exists_dispatch? (mem_dispatches.mpr hemission)
        -- The same agent at two places has the same function.
        have hagent : e'.agent = e.agent := by
          by_contra hne
          exact hapart.agents e' he' e he hne g f hfunction' hfunction hpath
        rw [hagent, hfunction] at hfunction'
        cases hfunction'
        rfl
    | agentModule q =>
        exact absurd hpath.symm (hapart.modules f hf q (mem_plans.mpr hemission))
  · exact absurd hpath (path_ne_extraFiles h hemitted hfile)

/-- In a run that goes through, functions are emitted for the agents that a gateway serves. Those of
different agents are in different files, and in no file of a module, exactly when the cleaned names of
the agents neither are the same nor are cut alike, and no module has such a name. Then the output
holds each function after it was written. -/
theorem dispatchFiles_apart_iff {out : Output} (h : (run o d).result = .ok out) :
    ∃ t, Gives (compileRoot o d) {} () t ∧ out = t.output o ∧
      (dispatches t.emitted).Perm
        (d.postorder.filterMap fun e => (Scope.ofRoot o d.agent).dispatch? e.agent) ∧
      (FilesApart (.ofRoot o d.agent) d t.emitted ↔
        ProxiesApart ((Scope.ofRoot o d.agent).served d)
          (namesFrom [] (basesOfRoot o.profile.platform d))) ∧
      (ProxiesApart ((Scope.ofRoot o d.agent).served d)
          (namesFrom [] (basesOfRoot o.profile.platform d)) →
        ∀ disk disk' directory, (Command.writeOutput Disk.host directory out.files).run disk = (true, disk') →
          ∀ f ∈ dispatches t.emitted, disk'.read (Path.join directory f.fileName) = .ok f.source) := by
  have hplain := isPlainName_files h
  obtain ⟨t, hgives, rfl⟩ := result_run_eq_ok.mp h
  obtain ⟨root, hcompiled, -⟩ := compiled_compileRoot hgives
  have hmodules {a : Agent} : Name.bound a.proxyName Name.maxLength ∈ (plans t.emitted).map (·.name) ↔
      Name.bound a.proxyName Name.maxLength ∈ namesFrom [] (basesOfRoot o.profile.platform d) :=
    (moduleNames_compileRoot hgives).2.mem_iff
  have hapart : FilesApart (.ofRoot o d.agent) d t.emitted ↔
      ProxiesApart ((Scope.ofRoot o d.agent).served d) (namesFrom [] (basesOfRoot o.profile.platform d)) := by
    rw [hcompiled.filesApart_iff]
    constructor
    · exact fun hnames => ⟨hnames.agents, fun a ha => mt hmodules.mpr (hnames.modules a ha)⟩
    · exact fun hnames => ⟨hnames.agents, fun a ha => mt hmodules.mp (hnames.modules a ha)⟩
  refine ⟨t, hgives, rfl, hcompiled.dispatches_perm, hapart, fun hnames disk disk' directory hwrite f hf => ?_⟩
  have hlasting := FilesApart.mem_lasting hgives (hapart.mpr hnames) hf
  have hread := Command.read_writeOutput hplain hwrite hlasting
  dsimp only at hread
  exact hread

end

/-- An agent with one operation behind a remote function. -/
def stockist (name id group : String) : Agent where
  name := name
  id := id
  modelId := "nova"
  prompts := [{ kind := .orchestration, template := .str "Answer the question." }]
  actionGroups :=
    [{ name := group, executor := .function "arn:aws:lambda:eu-west-1:1:function:orders",
       schema := some (.functions [{ name := "find" }]) }]

/-- An agent with one operation that calls another one. -/
def withHelper (root helper : Agent) : Definition :=
  .node { root with collaboration := .supervisor } [({ name := "helper" }, .node helper [])]

/-- Two agents of different names. -/
def twoStockists : Definition := withHelper (stockist "Clerk" "A1" "Orders") (stockist "Porter" "A2" "Stock")

/-- Two agents of one name. -/
def namesakes : Definition := withHelper (stockist "Clerk" "A1" "Orders") (stockist "Clerk" "A2" "Stock")

/-- Tools are served through gateways. -/
def gatewayOn : Options where
  gateway := some true

theorem proxiesApart_twoStockists :
    ProxiesApart ((Scope.ofRoot gatewayOn twoStockists.agent).served twoStockists)
      (namesFrom [] (basesOfRoot "langchain" twoStockists)) := by
  have hagents {a : Agent} (ha : a ∈ (Scope.ofRoot gatewayOn twoStockists.agent).served twoStockists) :
      a ∈ [stockist "Porter" "A2" "Stock",
        { stockist "Clerk" "A1" "Orders" with collaboration := .supervisor }] := by
    have hon : (Scope.ofRoot gatewayOn twoStockists.agent).primitives.gateway = true := rfl
    rw [Scope.served, if_pos hon] at ha
    exact List.mem_of_mem_filter ha
  have hnames : ∀ name ∈ ["Clerk", "Porter"], (Name.snake name ++ "_gateway_proxy").length ≤ 64 ∧
      Name.bound (Name.snake name ++ "_gateway_proxy") Name.maxLength ∉
        namesFrom [] (basesOfRoot "langchain" twoStockists) := by
    decide +kernel
  have hsnake : Name.snake "Porter" ≠ Name.snake "Clerk" := by decide +kernel
  constructor
  · intro a ha b hb hne hsame
    rcases List.mem_pair.mp (hagents ha) with rfl | rfl
    · rcases List.mem_pair.mp (hagents hb) with rfl | rfl
      · exact hne rfl
      · exact hsame.elim hsnake fun hlong => absurd hlong.1 (not_lt.mpr (hnames "Porter" (by simp)).1)
    · rcases List.mem_pair.mp (hagents hb) with rfl | rfl
      · exact hsame.elim hsnake.symm fun hlong => absurd hlong.1 (not_lt.mpr (hnames "Clerk" (by simp)).1)
      · exact hne rfl
  · intro a ha
    rcases List.mem_pair.mp (hagents ha) with rfl | rfl
    · exact (hnames "Porter" (by simp)).2
    · exact (hnames "Clerk" (by simp)).2

theorem dispatchFiles_apart_twoStockists :
    ∃ t : State, (run gatewayOn twoStockists).result = .ok (t.output gatewayOn) ∧
      FilesApart (.ofRoot gatewayOn twoStockists.agent) twoStockists t.emitted ∧
      (dispatches t.emitted).length = 2 := by
  have hends : ((compileRoot gatewayOn twoStockists).run.run {}).1.isOk := by decide +kernel
  obtain ⟨t, root, hgives, -⟩ := compiled_of_isOk hends
  have hrun : (run gatewayOn twoStockists).result = .ok (t.output gatewayOn) :=
    result_run_eq_ok.mpr ⟨t, hgives, rfl⟩
  obtain ⟨t', hgives', hout, hperm, hapart, -⟩ := dispatchFiles_apart_iff hrun
  have hcount : (twoStockists.postorder.filterMap fun e =>
      (Scope.ofRoot gatewayOn twoStockists.agent).dispatch? e.agent).length = 2 := by
    decide +kernel
  rw [hout] at hrun
  exact ⟨t', hrun, hapart.mpr proxiesApart_twoStockists, hperm.length_eq.trans hcount⟩

/-- Two agents of one name write their functions to one file. -/
theorem dispatchFiles_not_apart_namesakes :
    ∃ t : State, (run gatewayOn namesakes).result = .ok (t.output gatewayOn) ∧
      (dispatches t.emitted).map (fun f => (f.fileName, f.routes.map (·.group))) =
        [("clerk_gateway_proxy.py", ["Orders"]), ("clerk_gateway_proxy.py", ["Stock"])] ∧
      ¬FilesApart (.ofRoot gatewayOn namesakes.agent) namesakes t.emitted := by
  have hends : ((compileRoot gatewayOn namesakes).run.run {}).1.isOk := by decide +kernel
  obtain ⟨t, root, hgives, hcompiled⟩ := compiled_of_isOk hends
  have hstate : ((compileRoot gatewayOn namesakes).run.run {}).2 = t := by rw [hgives]
  have hfunctions : (dispatches ((compileRoot gatewayOn namesakes).run.run {}).2.emitted).map
      (fun f => (f.fileName, f.routes.map (·.group))) =
        [("clerk_gateway_proxy.py", ["Orders"]), ("clerk_gateway_proxy.py", ["Stock"])] := by
    decide +kernel
  rw [hstate] at hfunctions
  refine ⟨t, result_run_eq_ok.mpr ⟨t, hgives, rfl⟩, hfunctions, fun hapart => ?_⟩
  have hmade : ∀ e ∈ namesakes.postorder,
      ((Scope.ofRoot gatewayOn namesakes.agent).dispatch? e.agent).isSome := by
    decide +kernel
  have hhelper : .node (stockist "Clerk" "A2" "Stock") [] ∈ namesakes.postorder := List.mem_cons_self
  have hroot : namesakes ∈ namesakes.postorder := List.mem_cons_of_mem _ List.mem_cons_self
  obtain ⟨f, hf⟩ := Option.isSome_iff_exists.mp (hmade _ hhelper)
  obtain ⟨g, hg⟩ := Option.isSome_iff_exists.mp (hmade _ hroot)
  have hne : stockist "Clerk" "A2" "Stock" ≠ namesakes.agent :=
    fun heq => absurd (congrArg Agent.id heq) (by decide)
  exact hapart.agents _ hhelper _ hroot hne f g hf hg ((fileName_eq_iff hf hg).mpr (.inl rfl))

end Compilation

end AgentCompiler
