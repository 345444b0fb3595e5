import AgentCompiler.Proofs.Compilation.DispatchFile

/-!
# What a rejected definition has asked for

A run asks for the gateway of an agent when it enters the agent, and for its memory when it leaves it. A
cycle is found where an agent is entered, and a foreign template where one is left. So what was asked
for by then are the requests of all visits before, which is nothing only when none of them has any.
-/

namespace AgentCompiler

/-- A moment of the walk over a definition. The chain of identities leads from the root to the agent. -/
inductive Visit
  /-- Before the collaborators of an agent. -/
  | enter (chain : List String) (d : Definition)
  /-- After them. -/
  | leave (d : Definition)

namespace Definition

mutual
/-- The visits of the walk over a definition and all that is called from it, below ancestors. -/
def tour (ancestors : List String) : Definition → List Visit
  | .node a cs =>
    .enter (ancestors ++ [a.identity]) (.node a cs) ::
      ((if (Definition.node a cs).collaborates then tourAll (ancestors ++ [a.identity]) cs else []) ++
        [.leave (.node a cs)])
/-- The visits of the walk over collaborators. -/
def tourAll (chain : List String) : List (Delegation × Definition) → List Visit
  | [] => []
  | (_, d) :: rest => tour chain d ++ tourAll chain rest
end

end Definition

namespace Compilation

open Definition Provisioning

variable {s : Scope} {before asked : List Request} {visits later : List Visit} {fault : RunFault}

/-! ## Requests of visits -/

/-- What is asked for at a visit, after other requests were made. -/
inductive Asks (s : Scope) (before : List Request) : Visit → List Request → Prop
  /-- A gateway serves nothing for the agent. -/
  | unserved {chain : List String} {d : Definition}
      (idle : ¬(s.primitives.gateway ∧ d.agent.isBacked)) : Asks s before (.enter chain d) []
  /-- The agent's gateway is asked for, with the function behind it and its targets. -/
  | served {chain : List String} {d : Definition} {plan : Gateway.Plan} {handle : Handle}
      {functionRef : String} (backed : s.primitives.gateway ∧ d.agent.isBacked)
      (plan_eq : s.plan? d.agent = some plan)
      (gateway : s.provisioner before (.gateway d.agent.name d.agent.region) = .ok handle)
      (function : s.provisioner (before ++ [.gateway d.agent.name d.agent.region])
        (.dispatchEndpoint plan.dispatch) = .ok functionRef) :
      Asks s before (.enter chain d) (serving d.agent plan handle functionRef)
  /-- The agent remembers nothing, or in a file of its own. -/
  | unmanaged {d : Definition} (own : ¬(s.primitives.memory ∧ d.agent.memoryEnabled)) :
      Asks s before (.leave d) []
  /-- Memory for the agent is asked for. -/
  | managed {d : Definition} (remembers : s.primitives.memory ∧ d.agent.memoryEnabled) :
      Asks s before (.leave d) [.managedMemory d.agent.name .sessionSummaries d.agent.region]

/-- What is asked for along visits, after other requests were made. -/
inductive AsksAll (s : Scope) : List Request → List Visit → List Request → Prop
  | nil {before : List Request} : AsksAll s before [] []
  | cons {before first rest : List Request} {visit : Visit} {visits : List Visit}
      (head : Asks s before visit first) (tail : AsksAll s (before ++ first) visits rest) :
      AsksAll s before (visit :: visits) (first ++ rest)

/-- Something is asked for at a visit. -/
def Provisions (s : Scope) : Visit → Prop
  | .enter _ d => s.primitives.gateway ∧ d.agent.isBacked
  | .leave d => s.primitives.memory ∧ d.agent.memoryEnabled

theorem Asks.eq_nil_iff {visit : Visit} (h : Asks s before visit asked) :
    asked = [] ↔ ¬Provisions s visit := by
  cases h with
  | unserved idle => exact iff_of_true rfl idle
  | served backed => exact iff_of_false (List.cons_ne_nil _ _) (not_not_intro backed)
  | unmanaged own => exact iff_of_true rfl own
  | managed remembers => exact iff_of_false (List.cons_ne_nil _ _) (not_not_intro remembers)

namespace AsksAll

theorem append {asked' : List Request} (h : AsksAll s before visits asked)
    (h' : AsksAll s (before ++ asked) later asked') :
    AsksAll s before (visits ++ later) (asked ++ asked') := by
  induction h with
  | nil =>
      rw [List.append_nil] at h'
      exact h'
  | cons head _ ih =>
      rw [List.append_assoc]
      refine .cons head (ih ?_)
      rwa [List.append_assoc]

theorem single {visit : Visit} (h : Asks s before visit asked) : AsksAll s before [visit] asked := by
  have hall := AsksAll.cons h .nil
  rwa [List.append_nil] at hall

/-- Nothing is asked for along visits without requests only. -/
theorem eq_nil_iff (h : AsksAll s before visits asked) :
    asked = [] ↔ ∀ visit ∈ visits, ¬Provisions s visit := by
  induction h with
  | nil => simp
  | cons head _ ih => rw [List.append_eq_nil_iff, head.eq_nil_iff, ih, List.forall_mem_cons]

end AsksAll

/-! ## Visits that are passed -/

/-- A walk goes on after a visit: it enters no agent below itself, and leaves none with a foreign
template. -/
def Passes : Visit → Prop
  | .enter chain _ => chain.Nodup
  | .leave d => ¬Prompt.HasForeignTemplate d

/-- A fault that rejects the definition at a visit. -/
inductive Rejects : Visit → RunFault → Prop
  | cyclic {chain : List String} {d : Definition} (repeats : ¬chain.Nodup) :
      Rejects (.enter chain d) (.cyclic chain)
  | badTemplate {d : Definition} {fault : Prompt.TokenFault} (foreign : Prompt.HasForeignTemplate d) :
      Rejects (.leave d) (.badTemplate fault)

/-- A walk is rejected at a visit: all visits before it are passed, and what was asked for are their
requests. The memory of an agent is asked for before its templates are looked at. -/
inductive Rejected (s : Scope) (before : List Request) (visits : List Visit) (fault : RunFault)
    (asked : List Request) : Prop
  | entering {made rest : List Visit} {chain : List String} {d : Definition}
      (split : visits = made ++ .enter chain d :: rest) (passed : ∀ visit ∈ made, Passes visit)
      (rejects : Rejects (.enter chain d) fault) (asks : AsksAll s before made asked)
  | leaving {made rest : List Visit} {d : Definition} (split : visits = made ++ .leave d :: rest)
      (passed : ∀ visit ∈ made, Passes visit) (rejects : Rejects (.leave d) fault)
      (asks : AsksAll s before (made ++ [.leave d]) asked)

namespace Rejected

/-- The walk would have gone on. -/
theorem append (h : Rejected s before visits fault asked) (later : List Visit) :
    Rejected s before (visits ++ later) fault asked := by
  have hsplit {made rest : List Visit} {visit : Visit} (split : visits = made ++ visit :: rest) :
      visits ++ later = made ++ visit :: (rest ++ later) := by
    rw [split, List.append_assoc, List.cons_append]
  cases h with
  | entering split passed rejects asks => exact .entering (hsplit split) passed rejects asks
  | leaving split passed rejects asks => exact .leaving (hsplit split) passed rejects asks

/-- The walk had gone on before. -/
theorem after {asked' : List Request} (hpassed : ∀ visit ∈ visits, Passes visit)
    (hasks : AsksAll s before visits asked) (h : Rejected s (before ++ asked) later fault asked') :
    Rejected s before (visits ++ later) fault (asked ++ asked') := by
  have hall {made : List Visit} (passed : ∀ visit ∈ made, Passes visit) :
      ∀ visit ∈ visits ++ made, Passes visit :=
    List.forall_mem_append.mpr ⟨hpassed, passed⟩
  have hsplit {made rest : List Visit} {visit : Visit} (split : later = made ++ visit :: rest) :
      visits ++ later = visits ++ made ++ visit :: rest := by
    rw [split, List.append_assoc]
  cases h with
  | entering split passed rejects asks =>
      exact .entering (hsplit split) (hall passed) rejects (hasks.append asks)
  | leaving split passed rejects asks =>
      refine .leaving (hsplit split) (hall passed) rejects ?_
      rw [List.append_assoc]
      exact hasks.append asks

end Rejected

/-- No walk is rejected before its first visit. -/
theorem not_rejected_nil : ¬Rejected s before [] fault asked := by
  rintro (⟨split⟩ | ⟨split⟩)
  · exact absurd split.symm (List.append_ne_nil_of_right_ne_nil _ (List.cons_ne_nil _ _))
  · exact absurd split.symm (List.append_ne_nil_of_right_ne_nil _ (List.cons_ne_nil _ _))

/-! ## Walks -/

/-- A fault that rejects a definition. -/
def IsRejection (fault : RunFault) : Prop :=
  (∃ chain, fault = .cyclic chain) ∨ ∃ template, fault = .badTemplate template

/-- A part of a run that goes through has passed visits and made their requests. One that rejects the
definition was rejected at one of them. -/
structure Walks {α : Type} (s : Scope) (x : Run α) (visits : List Visit) : Prop where
  gives : ∀ t a t', Gives x t a t' → (∀ visit ∈ visits, Passes visit) ∧
    ∃ asked, t'.requests = t.requests ++ asked ∧ AsksAll s t.requests visits asked
  stops : ∀ t fault t', Stops x t fault t' → IsRejection fault →
    ∃ asked, t'.requests = t.requests ++ asked ∧ Rejected s t.requests visits fault asked

namespace Walks

variable {α β : Type} {x : Run α} {f : α → Run β}

/-- A part of a run that asks for nothing, and does not reject the definition. -/
theorem silent (hgives : ∀ t a t', Gives x t a t' → t'.requests = t.requests)
    (hstops : ∀ t fault t', Stops x t fault t' → ¬IsRejection fault) : Walks s x [] := by
  constructor
  · intro t a t' h
    refine ⟨List.forall_mem_nil _, [], ?_, .nil⟩
    rw [hgives t a t' h, List.append_nil]
  · intro t fault t' h hrejection
    exact absurd hrejection (hstops t fault t' h)

theorem pure (a : α) : Walks s (Pure.pure a : Run α) [] := by
  refine silent (fun t b t' h => ?_) fun t fault t' h => absurd h not_stops_pure
  obtain ⟨-, rfl⟩ := gives_pure.mp h
  rfl

/-- A sequence visits what its parts visit. -/
theorem bind (hx : Walks s x visits) (hf : ∀ a t t', Gives x t a t' → Walks s (f a) later) :
    Walks s (x >>= f) (visits ++ later) := by
  constructor
  · intro t b t' h
    obtain ⟨a, t₁, hfirst, hrest⟩ := gives_bind.mp h
    obtain ⟨hpassed, asked, hrequests, hasks⟩ := hx.gives t a t₁ hfirst
    obtain ⟨hpassed', asked', hrequests', hasks'⟩ := (hf a t t₁ hfirst).gives t₁ b t' hrest
    rw [hrequests] at hasks' hrequests'
    refine ⟨List.forall_mem_append.mpr ⟨hpassed, hpassed'⟩, asked ++ asked', ?_, hasks.append hasks'⟩
    rw [hrequests', List.append_assoc]
  · intro t fault t' h hrejection
    rcases stops_bind.mp h with hfirst | ⟨a, t₁, hfirst, hrest⟩
    · obtain ⟨asked, hrequests, hrejected⟩ := hx.stops t fault t' hfirst hrejection
      exact ⟨asked, hrequests, hrejected.append later⟩
    · obtain ⟨hpassed, asked, hrequests, hasks⟩ := hx.gives t a t₁ hfirst
      obtain ⟨asked', hrequests', hrejected⟩ :=
        (hf a t t₁ hfirst).stops t₁ fault t' hrest hrejection
      rw [hrequests] at hrejected hrequests'
      refine ⟨asked ++ asked', ?_, hrejected.after hpassed hasks⟩
      rw [hrequests', List.append_assoc]

/-- A silent part before others. -/
theorem lead (hx : Walks s x []) (hf : ∀ a t t', Gives x t a t' → Walks s (f a) visits) :
    Walks s (x >>= f) visits := bind hx hf

/-- A silent part after others. -/
theorem trail (hx : Walks s x visits) (hf : ∀ a, Walks s (f a) []) : Walks s (x >>= f) visits := by
  rw [← List.append_nil visits]
  exact bind hx fun a _ _ _ => hf a

end Walks

/-! ## The parts of a run -/

section

variable {a : Agent} {name : String} {t t' : State}

theorem not_isRejection_of_refused {fault : RunFault} (h : Refused s fault) : ¬IsRejection fault := by
  obtain ⟨-, what, reason, rfl⟩ := h
  rintro (⟨chain, h⟩ | ⟨template, h⟩)
  · cases h
  · cases h

theorem walks_moduleName (base : String) : Walks s (moduleName base) [] := by
  refine .silent (fun t name t' h => ?_) fun t fault t' h => absurd h not_stops_moduleName
  rw [(gives_moduleName.mp h).2]

theorem walks_emit (e : Emission) : Walks s (emit e) [] := by
  refine .silent (fun t _ t' h => ?_) fun t fault t' h => absurd h not_stops_emit
  rw [gives_emit h]

theorem walks_synthesize (s : Scope) (a : Agent) : Walks s (synthesize s a) [] := by
  refine .silent (fun t tools t' h => ?_) fun t fault t' h => ?_
  · rw [(gives_synthesize h).1]
  · rw [(stops_synthesize h).2]
    rintro (⟨chain, h⟩ | ⟨template, h⟩)
    · cases h
    · cases h

/-- The answers that a gateway gets. -/
theorem answers_serve {plan : Gateway.Plan} {handle : Handle} (h : Gives (serve s a plan) t handle t') :
    ∃ functionRef, s.provisioner t.requests (.gateway a.name a.region) = .ok handle ∧
      s.provisioner (t.requests ++ [.gateway a.name a.region]) (.dispatchEndpoint plan.dispatch) =
        .ok functionRef ∧
      t'.requests = t.requests ++ serving a plan handle functionRef := by
  unfold serve at h
  obtain ⟨handle', t₁, hgateway, h⟩ := gives_bind.mp h
  obtain ⟨functionRef, t₂, hfunction, h⟩ := gives_bind.mp h
  obtain ⟨_, t₃, htargets, h⟩ := gives_bind.mp h
  obtain ⟨rfl, rfl⟩ := gives_pure.mp h
  obtain ⟨hhandle, rfl⟩ := gives_ask hgateway
  obtain ⟨href, rfl⟩ := gives_ask hfunction
  refine ⟨functionRef, hhandle, href, ?_⟩
  rw [gives_register htargets]
  simp [serving]

/-- Entering an agent asks for its gateway. -/
theorem walks_bindGateway {chain : List String} {d : Definition} {t₀ t₁ : State}
    {tools : List ToolGroup × List Declaration} (top : Bool)
    (htools : Gives (synthesize s d.agent) t₀ tools t₁) (hnodup : chain.Nodup) :
    Walks s (bindGateway s d.agent name top tools.1) [.enter chain d] := by
  obtain ⟨groups, declarations⟩ := tools
  obtain ⟨-, registry, hsynthesize, -⟩ := gives_synthesize htools
  have hplan : s.plan? d.agent = gatewayPlan? s d.agent groups := by
    rw [Scope.plan?, hsynthesize, Option.bind_some]
  have hplanned : (gatewayPlan? s d.agent groups).isSome ↔ s.primitives.gateway ∧ d.agent.isBacked := by
    rw [← hplan]
    exact plan?_isSome_iff (Option.ne_none_iff_exists'.mpr ⟨_, hsynthesize⟩)
  constructor
  · intro t binding t' h
    refine ⟨List.forall_mem_singleton.mpr hnodup, ?_⟩
    unfold bindGateway at h
    split at h
    · next hoff =>
        obtain ⟨-, rfl⟩ := gives_pure.mp h
        refine ⟨[], (List.append_nil _).symm, .single (.unserved fun hon => ?_)⟩
        simp [hon.1] at hoff
    next hon =>
    have hon : s.primitives.gateway = true := by simpa using hon
    rw [gatewayPlan?, if_pos hon] at hplan hplanned
    split at h
    · next hnone =>
        obtain ⟨-, rfl⟩ := gives_pure.mp h
        refine ⟨[], (List.append_nil _).symm, .single (.unserved fun hbacked => ?_)⟩
        have hsome := hplanned.mpr hbacked
        rw [hnone] at hsome
        cases hsome
    · next plan hsome =>
        obtain ⟨handle, t₁, hserve, h⟩ := gives_bind.mp h
        obtain ⟨_, t₂, hvariables, h⟩ := gives_bind.mp h
        obtain ⟨_, t₃, hemit, h⟩ := gives_bind.mp h
        obtain ⟨functionRef, hgateway, hfunction, hrequests⟩ := answers_serve hserve
        obtain rfl := gives_addVariables hvariables
        obtain rfl := gives_emit hemit
        obtain ⟨-, rfl⟩ := gives_pure.mp h
        refine ⟨_, hrequests, .single (.served ?_ (hplan.trans hsome) hgateway hfunction)⟩
        exact hplanned.mp (by rw [hsome]; rfl)
  · intro t fault t' h hrejection
    exact absurd hrejection (not_isRejection_of_refused (refused_bindGateway s _ _ _ _ t fault t' h))

theorem asks_bindMemory {d : Definition} {memory : MemoryBinding}
    (h : Gives (bindMemory s d.agent name) t memory t') :
    ∃ asked, t'.requests = t.requests ++ asked ∧ Asks s t.requests (.leave d) asked := by
  unfold bindMemory at h
  split at h
  · next hoff =>
      obtain ⟨-, rfl⟩ := gives_pure.mp h
      refine ⟨[], (List.append_nil _).symm, .unmanaged fun hon => ?_⟩
      simp [hon.2] at hoff
  next hon =>
  have hon : d.agent.memoryEnabled = true := by simpa using hon
  split at h
  · next hmanaged =>
      obtain ⟨id, t₁, hask, h⟩ := gives_bind.mp h
      obtain ⟨-, rfl⟩ := gives_ask hask
      obtain ⟨-, rfl⟩ := gives_pure.mp h
      exact ⟨_, rfl, .managed ⟨hmanaged, hon⟩⟩
  · next hown =>
      obtain ⟨-, rfl⟩ := gives_pure.mp h
      exact ⟨[], (List.append_nil _).symm, .unmanaged fun hmanaged => hown hmanaged.1⟩

/-- Leaving an agent asks for its memory. Then its templates are looked at. -/
theorem walks_leave {d : Definition} {links : List Link} {groups : List ToolGroup} {β : Type}
    {f : MemoryBinding → List Prompt.Compiled → Run β}
    (hf : ∀ memory ps, Walks s (f memory ps) []) :
    Walks s (bindMemory s d.agent name >>= fun memory => prompts s d links groups >>= f memory)
      [.leave d] := by
  have hprompts := prompts_fails s d links groups
  constructor
  · intro t b t' h
    obtain ⟨memory, t₁, hmemory, h⟩ := gives_bind.mp h
    obtain ⟨ps, t₂, hgiven, hrest⟩ := gives_bind.mp h
    obtain ⟨asked, hrequests, hasks⟩ := asks_bindMemory hmemory
    obtain rfl := gives_prompts hgiven
    obtain ⟨-, asked', hrequests', hnone⟩ := (hf memory ps).gives _ _ _ hrest
    cases hnone
    refine ⟨List.forall_mem_singleton.mpr fun hforeign => ?_, asked, ?_, .single hasks⟩
    · obtain ⟨fault, t', hstops⟩ := (hprompts _).mpr hforeign
      exact hgiven.not_stops hstops
    · rw [hrequests', List.append_nil, hrequests]
  · intro t fault t' h hrejection
    rcases stops_bind.mp h with hmemory | ⟨memory, t₁, hmemory, h⟩
    · exact absurd hrejection (not_isRejection_of_refused (refused_bindMemory s _ _ t fault t' hmemory))
    obtain ⟨asked, hrequests, hasks⟩ := asks_bindMemory hmemory
    rcases stops_bind.mp h with hfails | ⟨ps, t₂, -, h⟩
    · have hforeign := (hprompts t₁).mp ⟨fault, t', hfails⟩
      obtain ⟨template, -, rfl, rfl⟩ := stops_prompts.mp hfails
      exact ⟨asked, hrequests, .leaving (List.nil_append _).symm (List.forall_mem_nil _) (.badTemplate hforeign)
        (.single hasks)⟩
    · obtain ⟨asked', -, hrejected⟩ := (hf memory ps).stops _ _ _ h hrejection
      exact absurd hrejected not_rejected_nil

end

/-! ## Runs -/

/-- A run visits what the walk over its definition visits. -/
theorem walks_compile (s : Scope) :
    (∀ ancestors name d, ancestors.Nodup → Walks s (compile s ancestors name d) (d.tour ancestors)) ∧
      ∀ chain cs, chain.Nodup → Walks s (compileAll s chain cs) (tourAll chain cs) := by
  refine compile.mutual_induct s _ _ ?cyclic ?node ?nil ?cons
  case cyclic =>
    intro ancestors name a cs chain hmem _ hancestors
    have hmem := List.contains_iff_mem.mp hmem
    rw [compile_node, if_pos hmem]
    constructor
    · intro t binds t' h
      exact absurd h not_gives_throw
    · intro t fault t' h _
      obtain ⟨rfl, rfl⟩ := stops_throw.mp h
      have hrepeats : ¬(ancestors ++ [a.identity]).Nodup := fun hnodup =>
        (List.nodup_append.mp hnodup).2.2 _ hmem _ (List.mem_singleton_self _) rfl
      refine ⟨[], (List.append_nil _).symm, ?_⟩
      rw [tour]
      exact .entering (List.nil_append _).symm (List.forall_mem_nil _) (.cyclic hrepeats) .nil
  case node =>
    intro ancestors name a cs chain hnew ih hancestors
    have hnew : a.identity ∉ ancestors := fun hmem => hnew (List.contains_iff_mem.mpr hmem)
    have hchain := nodup_concat hancestors hnew
    have hbelow : Walks s (compileBelow s (ancestors ++ [a.identity]) (.node a cs))
        (if (Definition.node a cs).collaborates then tourAll (ancestors ++ [a.identity]) cs else []) := by
      unfold compileBelow
      split
      · exact ih hchain
      · exact .pure []
    have hvisits : tour ancestors (.node a cs) = [.enter (ancestors ++ [a.identity]) (.node a cs)] ++
        ((if (Definition.node a cs).collaborates then tourAll (ancestors ++ [a.identity]) cs else []) ++
          [.leave (.node a cs)]) := by
      rw [tour]
      rfl
    rw [compile_node, if_neg hnew, hvisits]
    refine .lead (walks_synthesize s a) fun tools t t' htools => ?_
    refine .bind (walks_bindGateway (d := .node a cs) _ htools hchain) fun gateway _ _ _ => ?_
    refine .bind hbelow fun links _ _ _ => ?_
    refine walks_leave (d := .node a cs) fun memory ps => ?_
    exact .trail (walks_emit _) fun _ => .pure _
  case nil =>
    intro chain _
    exact .pure []
  case cons =>
    intro chain delegation d rest ih ih' hchain
    rw [compileAll, tourAll]
    refine .lead (walks_moduleName _) fun name _ _ _ => ?_
    exact .bind (ih name hchain) fun binds _ _ _ => .trail (ih' hchain) fun links => .pure _

theorem walks_compileRoot (o : Options) (d : Definition) :
    Walks (.ofRoot o d.agent) (compileRoot o d) (d.tour []) := by
  refine .lead (walks_moduleName _) fun name _ _ _ => ?_
  exact .trail ((walks_compile _).1 [] name d List.nodup_nil) fun _ => .pure ()

/-- What a run that stops has asked for is in the state in which it stops. -/
theorem requests_run {o : Options} {d : Definition} (h : (run o d).result = .error fault) :
    ∃ t, Stops (compileRoot o d) {} fault t ∧ (run o d).requests = t.requests := by
  obtain ⟨t, hstops⟩ := result_run_eq_error.mp h
  refine ⟨t, hstops, ?_⟩
  show ((compileRoot o d).run.run {}).2.requests = t.requests
  rw [hstops]

/-- When a definition is rejected for a cycle, the walk over it comes to an agent below itself, along the
chain that is told, and has passed all visits before. The requests are those of these visits. When it is
rejected for a template, the walk leaves an agent with a foreign one, and the request for its memory is
among those that were made. So nothing was asked for exactly when no visit until then has a request. -/
theorem rejected_requests (o : Options) (d : Definition) :
    (∀ chain, (run o d).result = .error (.cyclic chain) →
        ∃ made e rest, d.tour [] = made ++ .enter chain e :: rest ∧ ¬chain.Nodup ∧
          (∀ visit ∈ made, Passes visit) ∧
          AsksAll (.ofRoot o d.agent) [] made (run o d).requests ∧
          ((run o d).requests = [] ↔ ∀ visit ∈ made, ¬Provisions (.ofRoot o d.agent) visit)) ∧
      ∀ template, (run o d).result = .error (.badTemplate template) →
        ∃ made e rest, d.tour [] = made ++ .leave e :: rest ∧ Prompt.HasForeignTemplate e ∧
          (∀ visit ∈ made, Passes visit) ∧
          AsksAll (.ofRoot o d.agent) [] (made ++ [.leave e]) (run o d).requests ∧
          ((run o d).requests = [] ↔
            ∀ visit ∈ made ++ [.leave e], ¬Provisions (.ofRoot o d.agent) visit) := by
  have hrejected {fault : RunFault} (h : (run o d).result = .error fault) (hrejection : IsRejection fault) :
      Rejected (.ofRoot o d.agent) [] (d.tour []) fault (run o d).requests := by
    obtain ⟨t, hstops, hrequests⟩ := requests_run h
    obtain ⟨asked, hasked, hrejected⟩ := (walks_compileRoot o d).stops _ _ _ hstops hrejection
    rw [hrequests, hasked]
    exact hrejected
  constructor
  · intro chain h
    rcases hrejected h (.inl ⟨chain, rfl⟩) with ⟨split, passed, rejects, asks⟩ | ⟨_, _, rejects, _⟩
    · cases rejects with
      | cyclic repeats => exact ⟨_, _, _, split, repeats, passed, asks, asks.eq_nil_iff⟩
    · cases rejects
  · intro template h
    rcases hrejected h (.inr ⟨template, rfl⟩) with ⟨_, _, rejects, _⟩ | ⟨split, passed, rejects, asks⟩
    · cases rejects
    · cases rejects with
      | badTemplate foreign => exact ⟨_, _, _, split, foreign, passed, asks, asks.eq_nil_iff⟩

/-- All requests get their planned answers, and tools are served through gateways. -/
def answering : Options where
  gateway := some true
  provisioner := some planner

/-- The fault that ends a run. -/
def Outcome.fault? (x : Outcome) : Option RunFault :=
  match x.result with
  | .error fault => some fault
  | .ok _ => none

theorem Outcome.result_eq_error {x : Outcome} (h : x.fault? = some fault) : x.result = .error fault := by
  unfold Outcome.fault? at h
  split at h
  · next hresult =>
      cases h
      exact hresult
  · cases h

/-- An agent whose collaborator has its identity. -/
def impostor : Definition := withHelper (stockist "Lead" "A1" "Orders") (stockist "Nora" "A1" "Stock")

/-- An agent with a template that holds an unknown token. -/
def astray : Definition :=
  .node { stockist "Lead" "A1" "Orders" with
    prompts := [{ kind := .orchestration, template := .str "Answer $nobody$." }] } []

theorem rejected_requests_impostor :
    ((run answering impostor).result = .error (.cyclic ["A1", "A1"]) ∧
      ∃ made e rest, impostor.tour [] = made ++ .enter ["A1", "A1"] e :: rest ∧
        AsksAll (.ofRoot answering impostor.agent) [] made (run answering impostor).requests) ∧
    ∃ template, (run answering astray).result = .error (.badTemplate template) ∧
      ∃ made e rest, astray.tour [] = made ++ .leave e :: rest ∧ Prompt.HasForeignTemplate e ∧
        AsksAll (.ofRoot answering astray.agent) [] (made ++ [.leave e]) (run answering astray).requests := by
  have hcyclic : (run answering impostor).fault? = some (.cyclic ["A1", "A1"]) := by decide +kernel
  have hforeign : (run answering astray).fault? =
      some (.badTemplate (.unknown "ORCHESTRATION" "nobody")) := by decide +kernel
  constructor
  · have hresult := Outcome.result_eq_error hcyclic
    obtain ⟨made, e, rest, hsplit, -, -, hasks, -⟩ := (rejected_requests answering impostor).1 _ hresult
    exact ⟨hresult, made, e, rest, hsplit, hasks⟩
  · have hresult := Outcome.result_eq_error hforeign
    obtain ⟨made, e, rest, hsplit, hforeign, -, hasks, -⟩ := (rejected_requests answering astray).2 _ hresult
    exact ⟨_, hresult, made, e, rest, hsplit, hforeign, hasks⟩

/-- Whether a request is for a gateway. -/
def isGateway : Request → Bool
  | .gateway _ _ => true
  | .dispatchEndpoint _ | .gatewayTarget _ _ _ | .managedMemory _ _ _ => false

/-- The gateway of the root is there before the cycle is found, also when no request is refused. -/
theorem rejected_requests_ne_nil :
    (∀ before r, ∃ answer, planner before r = .ok answer) ∧
      (run answering impostor).result = .error (.cyclic ["A1", "A1"]) ∧
      (run answering impostor).requests.map isGateway = [true, false, false] := by
  have hcyclic : (run answering impostor).fault? = some (.cyclic ["A1", "A1"]) := by decide +kernel
  exact ⟨fun _ r => ⟨r.planned, rfl⟩, Outcome.result_eq_error hcyclic, by decide +kernel⟩

end Compilation

end AgentCompiler
