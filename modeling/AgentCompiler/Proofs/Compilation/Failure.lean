import Mathlib.Data.List.Nodup
import AgentCompiler.Proofs.Compilation.Step
import AgentCompiler.Proofs.Prompt.Foreign

/-!
# When a run fails

A run goes along the paths of the tree of agents that are called. It fails exactly when an identity is
repeated on one of the paths, or an agent on one of them has a template that does not compile. A fault
about a cycle tells the path that closes it.
-/

namespace AgentCompiler

namespace Definition

/-- The agents from a definition down to one that is called through it. -/
inductive Path : Definition → List Definition → Prop
  | here (d : Definition) : Path d [d]
  | through {d c : Definition} {delegation : Delegation} {ds : List Definition}
      (collaborates : d.collaborates) (mem : (delegation, c) ∈ d.collaborators) (path : Path c ds) :
      Path d (d :: ds)

/-- The identities along a path. -/
def identities (ds : List Definition) : List String := ds.map fun d => d.agent.identity

theorem path_iff {d : Definition} {ds : List Definition} :
    Path d ds ↔ ds = [d] ∨ d.collaborates ∧ ∃ e ∈ d.collaborators, ∃ below, Path e.2 below ∧
      ds = d :: below := by
  constructor
  · intro h
    cases h with
    | here => exact .inl rfl
    | through collaborates mem path => exact .inr ⟨collaborates, _, mem, _, path, rfl⟩
  · rintro (rfl | ⟨collaborates, ⟨delegation, c⟩, mem, below, path, rfl⟩)
    · exact .here d
    · exact .through collaborates mem path

end Definition

namespace Compilation

open Definition Provisioning

variable {α β : Type} {P Q : Prop}

/-! ## Failing runs -/

/-- Whenever a run stops, it does so with a fault of some kind. -/
def FaultsIn (x : Run α) (p : RunFault → Prop) : Prop := ∀ t e t', Stops x t e t' → p e

namespace FaultsIn

variable {x : Run α} {f : α → Run β} {p q : RunFault → Prop}

theorem mono (h : FaultsIn x p) (hpq : ∀ e, p e → q e) : FaultsIn x q :=
  fun t e t' hstops => hpq e (h t e t' hstops)

theorem never (h : ∀ t e t', ¬Stops x t e t') : FaultsIn x p :=
  fun t e t' hstops => absurd hstops (h t e t')

theorem pure (a : α) : FaultsIn (Pure.pure a : Run α) p := never fun _ _ _ => not_stops_pure

theorem bind (hx : FaultsIn x p) (hf : ∀ a, FaultsIn (f a) p) : FaultsIn (x >>= f) p := by
  intro t e t' h
  rcases stops_bind.mp h with h | ⟨a, t₁, -, h⟩
  · exact hx t e t' h
  · exact hf a t₁ e t' h

theorem forM {as : List α} {g : α → Run Unit} (h : ∀ a, FaultsIn (g a) p) :
    FaultsIn (as.forM g) p := by
  induction as with
  | nil => exact pure ()
  | cons a as ih => exact bind (h a) fun _ => ih

end FaultsIn

/-- From every state a run fails exactly under a condition. -/
def FailsIff (x : Run α) (P : Prop) : Prop := ∀ t, (∃ e t', Stops x t e t') ↔ P

namespace FailsIff

variable {x : Run α} {f : α → Run β}

theorem pure (a : α) : FailsIff (Pure.pure a : Run α) False := by
  intro t
  simp

theorem throw (e : RunFault) : FailsIff (MonadExcept.throw e : Run α) True := by
  intro t
  simp

theorem never (h : ∀ t e t', ¬Stops x t e t') : FailsIff x False := by
  intro t
  simp [h]

theorem bind (hx : FailsIff x P) (hf : ∀ a, FailsIff (f a) Q) : FailsIff (x >>= f) (P ∨ Q) := by
  intro t
  constructor
  · rintro ⟨e, t', h⟩
    rcases stops_bind.mp h with h | ⟨a, t₁, -, h⟩
    · exact .inl ((hx t).mp ⟨e, t', h⟩)
    · exact .inr ((hf a t₁).mp ⟨e, t', h⟩)
  · intro h
    rcases gives_or_stops x t with ⟨a, t₁, hgives⟩ | ⟨e, t', hstops⟩
    · have hrest : ¬P := fun hP => by
        obtain ⟨e, t', hstops⟩ := (hx t).mpr hP
        exact hgives.not_stops hstops
      obtain ⟨e, t', hstops⟩ := (hf a t₁).mpr (h.resolve_left hrest)
      exact ⟨e, t', stops_bind.mpr (.inr ⟨a, t₁, hgives, hstops⟩)⟩
    · exact ⟨e, t', stops_bind.mpr (.inl hstops)⟩

/-- A first part that never fails leaves it to the second. -/
theorem seq (hx : FailsIff x False) (hf : ∀ a, FailsIff (f a) Q) : FailsIff (x >>= f) Q := by
  intro t
  rw [bind hx hf t, false_or]

theorem congr (h : FailsIff x P) (hPQ : P ↔ Q) : FailsIff x Q := fun t => (h t).trans hPQ

end FailsIff

/-! ## Single steps -/

/-- No request of a run is refused. -/
def Scope.Answers (s : Scope) : Prop := ∀ before r reason, s.provisioner before r ≠ .error reason

/-- The planned answers refuse no request. -/
theorem answers_of_none {s : Scope} (h : s.options.provisioner = none) : s.Answers := by
  intro before r reason hrefused
  rw [Scope.provisioner, h] at hrefused
  cases hrefused

/-- A request was refused. -/
def Refused (s : Scope) (e : RunFault) : Prop := ¬s.Answers ∧ ∃ what reason, e = .refused what reason

section

variable (s : Scope) (a : Agent) (name : String)

theorem refused_ask (what : String) (r : Request) : FaultsIn (ask s what r) (Refused s) := by
  intro t e t' h
  obtain ⟨reason, hreason, he⟩ := stops_ask h
  exact ⟨fun hanswers => hanswers _ _ _ hreason, what, reason, he⟩

theorem refused_serve (plan : Gateway.Plan) : FaultsIn (serve s a plan) (Refused s) := by
  refine .bind (refused_ask s _ _) fun handle => ?_
  refine .bind (refused_ask s _ _) fun functionRef => ?_
  refine .bind (.forM fun target => ?_) fun _ => .pure handle
  exact .bind (refused_ask s _ _) fun _ => .pure ()

theorem refused_bindGateway (isRoot : Bool) (groups : List ToolGroup) :
    FaultsIn (bindGateway s a name isRoot groups) (Refused s) := by
  unfold bindGateway
  split
  · exact .pure none
  split
  · exact .pure none
  · next plan _ =>
      refine .bind (refused_serve s a plan) fun handle => ?_
      refine .bind (.never fun _ _ _ => not_stops_addVariables) fun _ => ?_
      exact .bind (.never fun _ _ _ => not_stops_emit) fun _ => .pure _

theorem refused_bindMemory : FaultsIn (bindMemory s a name) (Refused s) := by
  unfold bindMemory
  split
  · exact .pure _
  split
  · exact .bind (refused_ask s _ _) fun _ => .pure _
  · exact .pure _

end

/-- Where no request is refused, a run that stops on refusals only never stops. -/
theorem FaultsIn.failsIff {s : Scope} {x : Run α} (h : FaultsIn x (Refused s)) (hanswers : s.Answers) :
    FailsIff x False :=
  .never fun t e t' hstops => (h t e t' hstops).1 hanswers

/-- The synthesis of an agent's tools ends. -/
def Synthesizes (s : Scope) (a : Agent) : Prop :=
  (Tool.synthesize a.customGroups s.primitives.gateway).run {} ≠ none

theorem synthesize_never {s : Scope} {a : Agent} (h : Synthesizes s a) :
    FailsIff (synthesize s a) False :=
  .never fun _ _ _ hstops => h (stops_synthesize hstops).1

/-- The prompts of an agent fail exactly when a configured template is foreign. -/
theorem prompts_fails (s : Scope) (d : Definition) (links : List Link) (groups : List ToolGroup) :
    FailsIff (prompts s d links groups) (Prompt.HasForeignTemplate d) := by
  intro t
  rw [← Prompt.prompts_fails_iff (s := promptSetting s d.agent links groups) rfl]
  constructor
  · rintro ⟨e, t', h⟩
    obtain ⟨fault, hfault, -⟩ := stops_prompts.mp h
    exact ⟨fault, hfault⟩
  · rintro ⟨fault, hfault⟩
    exact ⟨_, _, stops_prompts.mpr ⟨fault, hfault, rfl, rfl⟩⟩

/-! ## Failing paths -/

/-- A path down from a definition repeats an identity, of the path or of an ancestor, or leads through
an agent with a foreign template. -/
def Fails (ancestors : List String) (d : Definition) : Prop :=
  ∃ ds, d.Path ds ∧ (¬(ancestors ++ identities ds).Nodup ∨ ∃ e ∈ ds, Prompt.HasForeignTemplate e)

theorem nodup_concat {names : List String} {name : String} (hnames : names.Nodup)
    (hname : name ∉ names) : (names ++ [name]).Nodup :=
  List.nodup_append_comm.mp (List.nodup_cons.mpr ⟨hname, hnames⟩)

theorem fails_of_mem {ancestors : List String} {d : Definition} (h : d.agent.identity ∈ ancestors) :
    Fails ancestors d := by
  refine ⟨[d], .here d, .inl fun hnodup => ?_⟩
  exact (List.nodup_append.mp hnodup).2.2 _ h _ (List.mem_singleton_self _) rfl

/-- A definition fails by its own templates or through one of its collaborators. -/
theorem fails_iff {ancestors : List String} {d : Definition} (hancestors : ancestors.Nodup)
    (hnew : d.agent.identity ∉ ancestors) :
    Fails ancestors d ↔ Prompt.HasForeignTemplate d ∨
      d.collaborates ∧ ∃ e ∈ d.collaborators, Fails (ancestors ++ [d.agent.identity]) e.2 := by
  have happend (below : List Definition) : ancestors ++ identities (d :: below) =
      ancestors ++ [d.agent.identity] ++ identities below := by
    rw [List.append_assoc]
    rfl
  constructor
  · rintro ⟨ds, hpath, hfails⟩
    rcases path_iff.mp hpath with rfl | ⟨hcollaborates, c, hc, below, hbelow, rfl⟩
    · left
      rcases hfails with hrepeats | ⟨e, he, hforeign⟩
      · exact absurd (nodup_concat hancestors hnew) hrepeats
      · rwa [← List.mem_singleton.mp he]
    · rcases hfails with hrepeats | ⟨e, he, hforeign⟩
      · rw [happend] at hrepeats
        exact .inr ⟨hcollaborates, c, hc, below, hbelow, .inl hrepeats⟩
      · rcases List.mem_cons.mp he with rfl | he
        · exact .inl hforeign
        · exact .inr ⟨hcollaborates, c, hc, below, hbelow, .inr ⟨e, he, hforeign⟩⟩
  · rintro (hforeign | ⟨hcollaborates, ⟨delegation, c⟩, hc, below, hbelow, hfails⟩)
    · exact ⟨[d], .here d, .inr ⟨d, List.mem_singleton_self d, hforeign⟩⟩
    · refine ⟨d :: below, .through hcollaborates hc hbelow, ?_⟩
      rcases hfails with hrepeats | ⟨e, he, hforeign⟩
      · rw [happend]
        exact .inl hrepeats
      · exact .inr ⟨e, List.mem_cons_of_mem d he, hforeign⟩

/-- A part of a run fails exactly along a failing path. -/
theorem compile_fails {s : Scope} (hanswers : s.Answers) :
    (∀ ancestors name d, ancestors.Nodup → (∀ ds, d.Path ds → ∀ e ∈ ds, Synthesizes s e.agent) →
        FailsIff (compile s ancestors name d) (Fails ancestors d)) ∧
      ∀ chain cs, chain.Nodup →
        (∀ c ∈ cs, ∀ ds, c.2.Path ds → ∀ e ∈ ds, Synthesizes s e.agent) →
          FailsIff (compileAll s chain cs) (∃ c ∈ cs, Fails chain c.2) := by
  refine compile.mutual_induct s _ _ ?cyclic ?node ?nil ?cons
  case cyclic =>
    intro ancestors name a cs chain hmem _ _ _
    rw [compile_node, if_pos (List.contains_iff_mem.mp hmem)]
    exact (FailsIff.throw _).congr (iff_of_true trivial (fails_of_mem (List.contains_iff_mem.mp hmem)))
  case node =>
    intro ancestors name a cs chain hnew ih hancestors hends
    have hnew : a.identity ∉ ancestors := fun hmem => hnew (List.contains_iff_mem.mpr hmem)
    have hchain := nodup_concat hancestors hnew
    have hbelow : FailsIff (compileBelow s (ancestors ++ [a.identity]) (.node a cs))
        ((Definition.node a cs).collaborates ∧
          ∃ c ∈ cs, Fails (ancestors ++ [a.identity]) c.2) := by
      unfold compileBelow
      split
      · next hon =>
          refine (ih hchain fun c hc ds hds e he => ?_).congr (by rw [and_iff_right hon])
          exact hends _ (.through hon hc hds) e (List.mem_cons_of_mem _ he)
      · next hoff => exact (FailsIff.pure []).congr (by simp [hoff])
    rw [compile_node, if_neg hnew]
    have hagent := hends [.node a cs] (.here _) _ (List.mem_singleton_self _)
    have hparts := fails_iff (d := .node a cs) hancestors hnew
    -- Only the agents below and the templates are left to fail.
    refine FailsIff.congr ?_ (or_comm.trans hparts.symm)
    refine .seq (synthesize_never hagent) fun tools => ?_
    refine .seq ((refused_bindGateway s _ _ _ _).failsIff hanswers) fun gateway => ?_
    refine .bind hbelow fun links => ?_
    refine .seq ((refused_bindMemory s _ _).failsIff hanswers) fun memory => ?_
    refine (FailsIff.bind (prompts_fails s _ links tools.1) fun ps => ?_).congr (by rw [or_false])
    exact .seq (.never fun _ _ _ => not_stops_emit) fun _ => .pure _
  case nil =>
    intro chain _ _
    exact (FailsIff.pure []).congr (by simp)
  case cons =>
    intro chain delegation d rest ih ih' hchain hends
    rw [compileAll]
    refine .seq (.never fun _ _ _ => not_stops_moduleName) fun name => ?_
    have hfirst := ih name hchain (hends _ List.mem_cons_self)
    have hrest := ih' hchain fun c hc => hends c (List.mem_cons_of_mem _ hc)
    have hboth : FailsIff (do
        let binds ← compile s chain name d
        let links ← compileAll s chain rest
        return (⟨delegation, d.agent.name, name, binds⟩ :: links : List Link))
          (Fails chain d ∨ (∃ c ∈ rest, Fails chain c.2) ∨ False) :=
      .bind hfirst fun binds => .bind hrest fun links => .pure _
    exact hboth.congr (by simp)

/-! ## Cycles -/

/-- A chain whose last identity stands in it once before, and whose earlier ones are all distinct. -/
def ClosesCycle (chain : List String) : Prop :=
  ∃ earlier last, chain = earlier ++ [last] ∧ earlier.Nodup ∧ earlier.count last = 1

/-- When a fault is about a cycle, its chain is of some kind. -/
def TellsChain (p : List String → Prop) (e : RunFault) : Prop := ∀ chain, e = .cyclic chain → p chain

/-- The chain of a cycle goes along a path below ancestors. -/
def ClosesBelow (ancestors : List String) (d : Definition) (chain : List String) : Prop :=
  ClosesCycle chain ∧ ∃ ds, d.Path ds ∧ chain = ancestors ++ identities ds

theorem tellsChain_of_refused {s : Scope} {p : List String → Prop} (e : RunFault) (h : Refused s e) :
    TellsChain p e := by
  obtain ⟨-, what, reason, rfl⟩ := h
  intro chain hchain
  cases hchain

/-- A cycle below a collaborator is one below the agent that calls it. -/
theorem ClosesBelow.through {ancestors chain : List String} {d : Definition}
    {e : Delegation × Definition} (hcollaborates : d.collaborates) (he : e ∈ d.collaborators)
    (h : ClosesBelow (ancestors ++ [d.agent.identity]) e.2 chain) : ClosesBelow ancestors d chain := by
  obtain ⟨hcloses, ds, hds, rfl⟩ := h
  refine ⟨hcloses, d :: ds, .through hcollaborates he hds, ?_⟩
  rw [List.append_assoc]
  rfl

/-- The chain of a cycle is the path from the root to the agent at which the run stops: the ancestors of
each agent that is reached are distinct, and the agent that closes the cycle is one of them. -/
theorem compile_tellsChain (s : Scope) :
    (∀ ancestors name d, ancestors.Nodup →
        FaultsIn (compile s ancestors name d) (TellsChain (ClosesBelow ancestors d))) ∧
      ∀ ancestors cs, ancestors.Nodup →
        FaultsIn (compileAll s ancestors cs)
          (TellsChain fun chain => ∃ c ∈ cs, ClosesBelow ancestors c.2 chain) := by
  refine compile.mutual_induct s _ _ ?cyclic ?node ?nil ?cons
  case cyclic =>
    intro ancestors name a cs chain hmem _ hancestors
    have hmem := List.contains_iff_mem.mp hmem
    rw [compile_node, if_pos hmem]
    intro t e t' h chain hchain
    cases (stops_throw.mp h).1.symm.trans hchain
    refine ⟨⟨ancestors, _, rfl, hancestors, List.count_eq_one_of_mem hancestors hmem⟩, ?_⟩
    exact ⟨[.node a cs], .here _, rfl⟩
  case node =>
    intro ancestors name a cs chain hnew ih hancestors
    have hnew : a.identity ∉ ancestors := fun hmem => hnew (List.contains_iff_mem.mpr hmem)
    have hbelow : FaultsIn (compileBelow s (ancestors ++ [a.identity]) (.node a cs))
        (TellsChain (ClosesBelow ancestors (.node a cs))) := by
      unfold compileBelow
      split
      · next hon =>
          refine (ih (nodup_concat hancestors hnew)).mono fun e he chain hchain => ?_
          obtain ⟨c, hc, hcloses⟩ := he chain hchain
          exact hcloses.through hon hc
      · exact .pure []
    -- The parts of the agent itself stop with other faults.
    rw [compile_node, if_neg hnew]
    refine .bind (fun _ _ _ h _ hchain => ?_) fun tools => ?_
    · cases (stops_synthesize h).2.symm.trans hchain
    refine .bind ((refused_bindGateway s _ _ _ _).mono tellsChain_of_refused) fun gateway => ?_
    refine .bind hbelow fun links => ?_
    refine .bind ((refused_bindMemory s _ _).mono tellsChain_of_refused) fun memory => ?_
    refine .bind (fun _ _ _ h _ hchain => ?_) fun ps => ?_
    · obtain ⟨fault, -, rfl, -⟩ := stops_prompts.mp h
      cases hchain
    exact .bind (.never fun _ _ _ => not_stops_emit) fun _ => .pure _
  case nil =>
    intro ancestors _
    exact .pure []
  case cons =>
    intro ancestors delegation d rest ih ih' hancestors
    rw [compileAll]
    refine .bind (.never fun _ _ _ => not_stops_moduleName) fun name => ?_
    refine .bind ((ih name hancestors).mono fun e he chain hchain => ?_) fun binds => ?_
    · exact ⟨_, List.mem_cons_self, he chain hchain⟩
    refine .bind ((ih' hancestors).mono fun e he chain hchain => ?_) fun links => .pure _
    obtain ⟨c, hc, hcloses⟩ := he chain hchain
    exact ⟨c, List.mem_cons_of_mem _ hc, hcloses⟩

/-! ## Runs -/

/-- How a run ends is how the compilation of its root ends. -/
theorem result_run_eq_error {o : Options} {d : Definition} {e : RunFault} :
    (run o d).result = .error e ↔ ∃ t', Stops (compileRoot o d) {} e t' := by
  unfold run Stops
  cases hrun : (compileRoot o d).run.run {} with
  | mk ended t =>
      cases ended with
      | ok u =>
          constructor
          · intro h
            cases h
          · rintro ⟨t', h⟩
            cases h
      | error e' =>
          constructor
          · intro h
            cases h
            exact ⟨t, rfl⟩
          · rintro ⟨t', h⟩
            cases h
            rfl

section

variable {o : Options} {d : Definition} (hanswers : (Scope.ofRoot o d.agent).Answers)
  (hends : ∀ ds, d.Path ds → ∀ e ∈ ds, Synthesizes (Scope.ofRoot o d.agent) e.agent)
include hanswers hends

/-- The compilation of the root fails exactly along a failing path. -/
theorem compileRoot_fails : FailsIff (compileRoot o d) (Fails [] d) := by
  have hcompile (name : String) := (compile_fails hanswers).1 [] name d List.nodup_nil hends
  have hroot : FailsIff (compileRoot o d) (Fails [] d ∨ False) := by
    refine .seq (.never fun _ _ _ => not_stops_moduleName) fun name => ?_
    exact .bind (hcompile name) fun _ => .pure ()
  exact hroot.congr (by rw [or_false])

/-- Without a failing path the compilation of the root goes through. -/
theorem isOk_compileRoot (hpaths : ¬Fails [] d) : ((compileRoot o d).run.run {}).1.isOk := by
  obtain ⟨u, t, hgives⟩ | ⟨e, t, hstops⟩ := gives_or_stops (compileRoot o d) {}
  · rw [hgives]
    rfl
  · exact absurd ((compileRoot_fails hanswers hends {}).mp ⟨e, t, hstops⟩) hpaths

end

/-- A run in which no request is refused, and the tools of every agent that is called are made, fails
exactly when a path down from the root repeats an identity or leads through an agent with a foreign
template. When it fails with a cycle, the chain is a path from the root, its last identity stands in it
once before, and the earlier ones are distinct. -/
theorem run_fails_iff {o : Options} {d : Definition} (hanswers : (Scope.ofRoot o d.agent).Answers)
    (hends : ∀ ds, d.Path ds → ∀ e ∈ ds, Synthesizes (Scope.ofRoot o d.agent) e.agent) :
    ((∃ fault, (run o d).result = .error fault) ↔
      ∃ ds, d.Path ds ∧ (¬(identities ds).Nodup ∨ ∃ e ∈ ds, Prompt.HasForeignTemplate e)) ∧
    ∀ chain, (run o d).result = .error (.cyclic chain) →
      ∃ ds, d.Path ds ∧ chain = identities ds ∧ ClosesCycle chain := by
  refine ⟨?_, fun chain h => ?_⟩
  · simp only [result_run_eq_error]
    rw [compileRoot_fails hanswers hends {}]
    rfl
  · obtain ⟨t', h⟩ := result_run_eq_error.mp h
    have hroot : FaultsIn (compileRoot o d) (TellsChain (ClosesBelow [] d)) := by
      refine .bind (.never fun _ _ _ => not_stops_moduleName) fun name => ?_
      exact .bind ((compile_tellsChain _).1 _ _ _ List.nodup_nil) fun _ => .pure ()
    obtain ⟨hcloses, ds, hds, heq⟩ := hroot _ _ _ h chain rfl
    exact ⟨ds, hds, heq, hcloses⟩

/-- The synthesis of no tools ends. -/
theorem synthesizes_of_nil {s : Scope} {a : Agent} (h : a.customGroups = []) : Synthesizes s a := by
  rw [Synthesizes, h]
  intro hnone
  cases hnone

/-- An agent that calls another one of its own name. -/
def selfCaller : Definition :=
  .node { name := "Lead", modelId := "nova", collaboration := .supervisor }
    [({ name := "helper" }, .node { name := "Lead", modelId := "nova" } [])]

theorem run_fails_selfCaller :
    (∃ fault, (run {} selfCaller).result = .error fault) ∧
      ∀ chain, (run {} selfCaller).result = .error (.cyclic chain) →
        ∃ ds, selfCaller.Path ds ∧ chain = identities ds ∧ ClosesCycle chain := by
  have hends : ∀ ds, selfCaller.Path ds → ∀ e ∈ ds,
      Synthesizes (Scope.ofRoot {} selfCaller.agent) e.agent := by
    intro ds hds e he
    refine synthesizes_of_nil ?_
    rcases path_iff.mp hds with rfl | ⟨-, c, hc, below, hbelow, rfl⟩
    · rw [List.mem_singleton.mp he]
      rfl
    · rw [List.mem_singleton.mp hc] at hbelow
      rcases path_iff.mp hbelow with rfl | ⟨hcollaborates, -⟩
      · rcases List.mem_cons.mp he with rfl | he
        · rfl
        · rw [List.mem_singleton.mp he]
          rfl
      · cases hcollaborates
  obtain ⟨hfails, hchain⟩ := run_fails_iff (o := {}) (answers_of_none rfl) hends
  refine ⟨hfails.mpr ?_, hchain⟩
  refine ⟨_, .through rfl List.mem_cons_self (.here _), .inl ?_⟩
  decide

end Compilation

end AgentCompiler
