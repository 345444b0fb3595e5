import AgentCompiler.Proofs.Assembly.Source
import AgentCompiler.Proofs.Compilation.Links

/-!
# Definitions that compile alike

Two runs agree when they end alike, ask for the same and emit what looks the same in the output. Whether
they do is decided agent by agent: when the parts of each agent are compiled alike, the runs of the two
trees agree, and they have one outcome.
-/

namespace AgentCompiler

/-- What an output shows of something that was emitted: its file, and whether it is a module with a
memory manager. -/
def Emission.shown (profile : Profile) (e : Emission) : OutputFile × Bool :=
  (e.file profile, e.plan?.any fun p => p.memory.needsCoordinator)

namespace Compilation

open Provisioning (Request)

variable {α β : Type} {profile : Profile} {t t' : State} {x y : Run α}

/-! ## Runs that agree -/

/-- Two states look the same in the output, and in all that is asked for from there on. -/
structure State.Agree (profile : Profile) (t t' : State) : Prop where
  wanted : t'.wanted = t.wanted
  requests : t'.requests = t.requests
  emitted : t'.emitted.map (·.shown profile) = t.emitted.map (·.shown profile)
  environment : t'.environment = t.environment

theorem State.Agree.refl (t : State) : t.Agree profile t := ⟨rfl, rfl, rfl, rfl⟩

/-- States that agree give the same output. -/
theorem State.Agree.output_eq {o o' : Options} (h : t.Agree o.profile t')
    (hprofile : o'.profile = o.profile) (hprovisioner : o'.provisioner = o.provisioner) :
    t'.output o' = t.output o := by
  have hfiles := congrArg (List.map Prod.fst) h.emitted
  have hmanagers := congrArg (fun shown => shown.any Prod.snd) h.emitted
  have hany (es : List Emission) : (es.map (·.shown o.profile)).any Prod.snd =
      (es.filterMap (·.plan?)).any fun p => p.memory.needsCoordinator := by
    rw [List.any_map, List.any_filterMap]
    refine congrArg es.any (funext fun e => ?_)
    cases e with
    | dispatch f => rfl
    | agentModule p => rfl
  rw [List.map_map, List.map_map] at hfiles
  simp only [hany] at hmanagers
  unfold State.output extraFiles
  rw [hprofile, hprovisioner, h.environment, h.requests, hmanagers]
  exact congrArg (fun files => Output.mk (files ++ _) _) hfiles

/-- Two runs end alike, in states that agree, when they start in states that agree. -/
def Agree (profile : Profile) (x y : Run α) : Prop :=
  ∀ t t' : State, t.Agree profile t' →
    (y.run.run t').1 = (x.run.run t).1 ∧ (x.run.run t).2.Agree profile (y.run.run t').2

namespace Agree

theorem pure (a : α) : Agree profile (Pure.pure a : Run α) (Pure.pure a) := fun _ _ h => ⟨rfl, h⟩

theorem throw (e : RunFault) : Agree profile (MonadExcept.throw e : Run α) (MonadExcept.throw e) :=
  fun _ _ h => ⟨rfl, h⟩

/-- Sequences agree when their first parts do, and their second parts for all that the first part
gives. -/
theorem bind {f g : α → Run β} (h : Agree profile x y)
    (hrest : ∀ {t a t'}, Gives x t a t' → Agree profile (f a) (g a)) :
    Agree profile (x >>= f) (y >>= g) := by
  intro t t' hstart
  obtain ⟨hresult, hstate⟩ := h t t' hstart
  rw [run_bind, run_bind]
  obtain ⟨a, t₁, hgives⟩ | ⟨e, t₁, hstops⟩ := gives_or_stops x t
  · rw [hgives] at hresult hstate ⊢
    rw [show y.run.run t' = (.ok a, (y.run.run t').2) from Prod.ext hresult rfl]
    exact hrest hgives _ _ hstate
  · rw [hstops] at hresult hstate ⊢
    rw [show y.run.run t' = (.error e, (y.run.run t').2) from Prod.ext hresult rfl]
    exact ⟨rfl, hstate⟩

/-! ## Single steps -/

theorem moduleName (base : String) :
    Agree profile (Compilation.moduleName base) (Compilation.moduleName base) := by
  intro t t' h
  refine ⟨?_, ?_, h.requests, h.emitted, h.environment⟩
  · show Except.ok (numbered base (t'.wanted.count base + 1)) =
      Except.ok (numbered base (t.wanted.count base + 1))
    rw [h.wanted]
  · show t'.wanted ++ [base] = t.wanted ++ [base]
    rw [h.wanted]

theorem addVariables (bindings : List (String × String)) :
    Agree profile (Compilation.addVariables bindings) (Compilation.addVariables bindings) := by
  intro t t' h
  refine ⟨rfl, h.wanted, h.requests, h.emitted, ?_⟩
  show t'.environment ++ bindings = t.environment ++ bindings
  rw [h.environment]

theorem emit {e e' : Emission} (hshown : e'.shown profile = e.shown profile) :
    Agree profile (Compilation.emit e) (Compilation.emit e') := by
  intro t t' h
  refine ⟨rfl, h.wanted, h.requests, ?_, h.environment⟩
  show (t'.emitted ++ [e']).map _ = (t.emitted ++ [e]).map _
  rw [List.map_append, List.map_append, h.emitted, List.map_singleton, List.map_singleton, hshown]

theorem ask {s : Scope} (what : String) (r : Request) :
    Agree profile (Compilation.ask s what r) (Compilation.ask s what r) := by
  intro t t' h
  rw [run_ask, run_ask, h.requests]
  split
  · exact ⟨rfl, h⟩
  · exact ⟨rfl, h.wanted, rfl, h.emitted, h.environment⟩

theorem synthesize (s : Scope) (a : Agent) :
    Agree profile (Compilation.synthesize s a) (Compilation.synthesize s a) := by
  unfold Compilation.synthesize
  split
  · exact pure _
  · exact throw _

/-- Requests that are made one after the other agree with themselves. -/
theorem forM {γ : Type} {request : γ → Run Unit} (h : ∀ c, Agree profile (request c) (request c))
    (cs : List γ) : Agree profile (cs.forM request) (cs.forM request) := by
  induction cs with
  | nil => exact pure _
  | cons c cs ih =>
      rw [List.forM]
      exact bind (h c) fun _ => ih

theorem serve (s : Scope) (a : Agent) (plan : Gateway.Plan) :
    Agree profile (Compilation.serve s a plan) (Compilation.serve s a plan) := by
  unfold Compilation.serve
  refine bind (ask _ _) fun _ => bind (ask _ _) fun _ => bind ?_ fun _ => pure _
  exact forM (fun _ => bind (ask _ _) fun _ => pure _) _

theorem bindGateway (s : Scope) (a : Agent) (name : String) (isRoot : Bool) (groups : List ToolGroup) :
    Agree profile (Compilation.bindGateway s a name isRoot groups)
      (Compilation.bindGateway s a name isRoot groups) := by
  unfold Compilation.bindGateway
  split
  · exact pure _
  split
  · exact pure _
  · refine bind (serve _ _ _) fun _ => ?_
    exact bind (addVariables _) fun _ => bind (emit rfl) fun _ => pure _

theorem bindMemory (s : Scope) (a : Agent) (name : String) :
    Agree profile (Compilation.bindMemory s a name) (Compilation.bindMemory s a name) := by
  unfold Compilation.bindMemory
  split
  · exact pure _
  split
  · exact bind (ask _ _) fun _ => pure _
  · exact pure _

theorem prompts (s : Scope) (d : Definition) (links : List Link) (groups : List ToolGroup) :
    Agree profile (Compilation.prompts s d links groups) (Compilation.prompts s d links groups) := by
  unfold Compilation.prompts
  dsimp only
  split
  · exact pure _
  · exact throw _

end Agree

/-! ## Trees that compile alike -/

/-- The parts of two agents are compiled alike, each in its scope. -/
structure PartsAlike (s s' : Scope) (d d' : Definition) : Prop where
  identity : d'.agent.identity = d.agent.identity
  name : d'.agent.name = d.agent.name
  tools : synthesize s' d'.agent = synthesize s d.agent
  gateway : ∀ {t groups declarations}, Gives (synthesize s d.agent) t (groups, declarations) t →
    ∀ name isRoot,
      bindGateway s' d'.agent name isRoot groups = bindGateway s d.agent name isRoot groups
  memory : ∀ name, bindMemory s' d'.agent name = bindMemory s d.agent name
  prompts : ∀ links groups, prompts s' d' links groups = prompts s d links groups
  code : ∀ {t groups declarations}, Gives (synthesize s d.agent) t (groups, declarations) t →
    ∀ name isRoot gateway links memory ps,
      (planModule s d name isRoot groups declarations gateway links memory ps).Agree
        (planModule s' d' name isRoot groups declarations gateway links memory ps)

mutual
/-- Below ancestors, two agents are compiled alike, and so are the collaborators that they call. Of an
agent below itself nothing is compiled. -/
inductive Alike (s s' : Scope) : List String → Definition → Definition → Prop
  | cyclic {ancestors : List String} {d d' : Definition}
      (identity : d'.agent.identity = d.agent.identity) (name : d'.agent.name = d.agent.name)
      (below : d.agent.identity ∈ ancestors) : Alike s s' ancestors d d'
  | node {ancestors : List String} {d d' : Definition} (parts : PartsAlike s s' d d')
      (called : AlikeAll s s' (ancestors ++ [d.agent.identity]) d.called d'.called) :
      Alike s s' ancestors d d'
/-- The collaborators of two agents are the same ones to their callers, and are compiled alike. -/
inductive AlikeAll (s s' : Scope) :
    List String → List (Delegation × Definition) → List (Delegation × Definition) → Prop
  | nil {chain : List String} : AlikeAll s s' chain [] []
  | cons {chain : List String} {delegation : Delegation} {d d' : Definition}
      {cs cs' : List (Delegation × Definition)} (head : Alike s s' chain d d')
      (tail : AlikeAll s s' chain cs cs') :
      AlikeAll s s' chain ((delegation, d) :: cs) ((delegation, d') :: cs')
end

variable {s s' : Scope} {d d' : Definition} {ancestors chain : List String}

theorem Alike.name (h : Alike s s' ancestors d d') : d'.agent.name = d.agent.name := by
  cases h with
  | cyclic identity name below => exact name
  | node parts called => exact parts.name

/-- An agent below itself stops the run. -/
theorem compile_of_mem (s : Scope) (name : String) (h : d.agent.identity ∈ ancestors) :
    compile s ancestors name d = throw (.cyclic (ancestors ++ [d.agent.identity])) := by
  obtain ⟨a, cs⟩ := d
  rw [compile_node]
  exact if_pos h

/-- An agent compiles the collaborators that it calls. -/
theorem compileBelow_eq (s : Scope) (chain : List String) (d : Definition) :
    compileBelow s chain d = compileAll s chain d.called := by
  unfold compileBelow Definition.called
  split
  · rfl
  · rw [compileAll]

/-- The modules of plans that agree look the same. -/
theorem shown_agentModule {p q : ModulePlan} (h : p.Agree q) (hname : q.name = p.name) :
    (Emission.agentModule q).shown profile = (Emission.agentModule p).shown profile := by
  show ((⟨q.name ++ ".py", q.render profile⟩ : OutputFile), q.memory.needsCoordinator) =
    ((⟨p.name ++ ".py", p.render profile⟩ : OutputFile), p.memory.needsCoordinator)
  rw [hname, h.render, h.memory]

mutual
/-- Trees that compile alike are compiled by runs that agree. -/
theorem Alike.compile (hprofile : s'.options.profile = s.options.profile) (name : String) :
    ∀ {ancestors : List String} {d d' : Definition}, Alike s s' ancestors d d' →
      Agree profile (compile s ancestors name d) (Compilation.compile s' ancestors name d')
  | _, _, _, .cyclic identity _ below => by
      rw [compile_of_mem s name below, compile_of_mem s' name (identity ▸ below), identity]
      exact Agree.throw _
  | ancestors, .node a cs, .node a' cs', .node parts called => by
      rw [compile_node, compile_node, show a'.identity = a.identity from parts.identity,
        show synthesize s' a' = synthesize s a from parts.tools]
      split
      · exact Agree.throw _
      -- Up to the collaborators both sides make the same steps, once the parts are rewritten.
      refine Agree.bind (Agree.synthesize s a) fun {_ tools _} htools => ?_
      obtain ⟨rfl, -⟩ := gives_synthesize htools
      rw [show bindGateway s' a' name _ tools.1 = bindGateway s a name _ tools.1 from
          parts.gateway htools name _,
        show bindMemory s' a' name = bindMemory s a name from parts.memory name]
      refine Agree.bind (Agree.bindGateway s a name _ tools.1) fun {_ gateway _} _ => ?_
      rw [compileBelow_eq, compileBelow_eq]
      refine Agree.bind (called.compileAll hprofile) fun {_ links _} _ => ?_
      refine Agree.bind (Agree.bindMemory s a name) fun {_ memory _} _ => ?_
      rw [parts.prompts]
      refine Agree.bind (Agree.prompts s _ links tools.1) fun {_ ps _} _ => ?_
      -- The modules are not the same data, but their plans agree on all that is rendered.
      have hplans := parts.code htools name ancestors.isEmpty gateway links memory ps
      refine Agree.bind (Agree.emit (shown_agentModule hplans rfl)) fun _ => ?_
      rw [hplans.bindsCoordinator]
      exact Agree.pure _
/-- Collaborators that compile alike are compiled by runs that agree, and get the same links. -/
theorem AlikeAll.compileAll (hprofile : s'.options.profile = s.options.profile) :
    ∀ {chain : List String} {cs cs' : List (Delegation × Definition)}, AlikeAll s s' chain cs cs' →
      Agree profile (compileAll s chain cs) (Compilation.compileAll s' chain cs')
  | _, _, _, .nil => Agree.pure _
  | _, _, _, .cons head tail => by
      rw [Compilation.compileAll, Compilation.compileAll, Scope.platform, Scope.platform, hprofile,
        head.name]
      refine Agree.bind (Agree.moduleName _) fun {_ name _} _ => ?_
      refine Agree.bind (head.compile hprofile name) fun _ => ?_
      exact Agree.bind (tail.compileAll hprofile) fun _ => Agree.pure _
end

theorem run_eq (o : Options) (d : Definition) :
    run o d = ⟨((compileRoot o d).run.run {}).1.map fun _ => ((compileRoot o d).run.run {}).2.output o,
      ((compileRoot o d).run.run {}).2.requests⟩ := rfl

/-- Trees that compile alike are compiled with the same result, and with the same requests. -/
theorem run_eq_of_alike {o o' : Options} (hprofile : o'.profile = o.profile)
    (hprovisioner : o'.provisioner = o.provisioner)
    (h : Alike (.ofRoot o d.agent) (.ofRoot o' d'.agent) [] d d') : run o' d' = run o d := by
  have hroots : Agree o.profile (compileRoot o d) (compileRoot o' d') := by
    have hbase : (Scope.ofRoot o' d'.agent).platform = (Scope.ofRoot o d.agent).platform :=
      congrArg Profile.platform hprofile
    unfold compileRoot
    dsimp only
    rw [hbase, h.name]
    refine Agree.bind (Agree.moduleName _) fun _ => ?_
    exact Agree.bind (h.compile hprofile _) fun _ => Agree.pure _
  obtain ⟨hresult, hstate⟩ := hroots {} {} (.refl {})
  rw [run_eq, run_eq, hresult, hstate.output_eq hprofile hprovisioner, hstate.requests]

end Compilation

end AgentCompiler
