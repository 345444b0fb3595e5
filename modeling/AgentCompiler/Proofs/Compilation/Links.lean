import AgentCompiler.Proofs.Collaboration.Binding
import AgentCompiler.Proofs.Compilation.ModuleName

/-!
# The collaborators of the modules of a run

A module has one link for each collaborator that its agent calls, and the link leads to the module that
this collaborator was compiled to. The names of modules are numbered apart, but the names under which a
caller binds its collaborators are not: `links_reached_iff` says when they are distinct, and when each
collaborator is reached.
-/

namespace AgentCompiler

/-- The names under which an agent calls its collaborators. -/
def Definition.calledNames (d : Definition) : List String :=
  d.called.map fun c => Name.snake c.1.name

namespace Compilation

variable {s : Scope} {t t₁ t' : State} {name : String}

/-- The link to a collaborator leads to the module that was emitted for it. -/
structure LeadsTo (t : State) (c : Delegation × Definition) (l : Link) : Prop where
  delegation : l.delegation = c.1
  agentName : l.agentName = c.2.agent.name
  target : ∃ p : ModulePlan, .agentModule p ∈ t.emitted ∧ p.definition = c.2 ∧
    p.name = l.moduleName ∧ p.bindsCoordinator = l.bindsCoordinator

/-- The module has one link for each collaborator that its agent calls, in order. -/
def Linked (t : State) (p : ModulePlan) : Prop := List.Forall₂ (LeadsTo t) p.definition.called p.links

/-- What was emitted stays, and each module that came in is linked. -/
structure Grows (t t' : State) : Prop where
  kept : t.emitted ⊆ t'.emitted
  linked : ∀ p, .agentModule p ∈ t'.emitted → .agentModule p ∈ t.emitted ∨ Linked t' p

theorem LeadsTo.mono {c : Delegation × Definition} {l : Link} (hkept : t.emitted ⊆ t'.emitted)
    (h : LeadsTo t c l) : LeadsTo t' c l := by
  obtain ⟨p, hp, htarget⟩ := h.target
  exact ⟨h.delegation, h.agentName, p, hkept hp, htarget⟩

theorem Linked.mono {p : ModulePlan} (hkept : t.emitted ⊆ t'.emitted) (h : Linked t p) :
    Linked t' p :=
  List.Forall₂.imp (fun _ _ => LeadsTo.mono hkept) h

namespace Grows

/-- No module came in. -/
theorem of_eq (h : t'.emitted = t.emitted) : Grows t t' := by
  constructor
  · rw [h]
    exact List.Subset.refl _
  · intro p hp
    rw [h] at hp
    exact .inl hp

theorem trans (h : Grows t t₁) (h' : Grows t₁ t') : Grows t t' := by
  constructor
  · exact List.Subset.trans h.kept h'.kept
  · intro p hp
    rcases h'.linked p hp with hp | hp
    · exact (h.linked p hp).imp_right (Linked.mono h'.kept)
    · exact .inr hp

/-- A linked module comes in. -/
theorem emit {p : ModulePlan} (hp : Linked t p) :
    Grows t { t with emitted := t.emitted ++ [.agentModule p] } := by
  have hkept : t.emitted ⊆ t.emitted ++ [.agentModule p] := List.subset_append_left _ _
  constructor
  · exact hkept
  · intro q hq
    rcases List.mem_append.mp hq with hq | hq
    · exact .inl hq
    · cases List.mem_singleton.mp hq
      exact .inr (Linked.mono hkept hp)

theorem of_bindGateway {a : Agent} {isRoot : Bool} {groups : List ToolGroup}
    {binding : Option GatewayBinding} (h : Gives (bindGateway s a name isRoot groups) t binding t') :
    Grows t t' := by
  obtain ⟨-, ⟨-, -, rfl⟩ | ⟨plan, handle, functionRef, -, -, hemitted⟩⟩ := gives_bindGateway h
  · exact of_eq rfl
  constructor
  · rw [hemitted]
    exact List.subset_append_left _ _
  · intro p hp
    rw [hemitted] at hp
    -- What came in is a function and no module.
    rcases List.mem_append.mp hp with hp | hp
    · exact .inl hp
    · cases List.mem_singleton.mp hp

theorem of_bindMemory {a : Agent} {memory : MemoryBinding}
    (h : Gives (bindMemory s a name) t memory t') : Grows t t' := by
  rcases gives_bindMemory h with rfl | rfl
  · exact of_eq rfl
  · exact of_eq rfl

end Grows

/-- All modules that come in are linked. An agent's own module is among them, with the name that it is
compiled under, and the collaborators get one link each. -/
theorem grows_compile (s : Scope) :
    (∀ ancestors name d t binds t', Gives (compile s ancestors name d) t binds t' →
        Grows t t' ∧ ∃ p : ModulePlan, .agentModule p ∈ t'.emitted ∧ p.definition = d ∧
          p.name = name ∧ p.bindsCoordinator = binds) ∧
      ∀ chain cs t links t', Gives (compileAll s chain cs) t links t' →
        Grows t t' ∧ List.Forall₂ (LeadsTo t') cs links := by
  refine gives_induction ?node ?nil ?cons
  case node =>
    intro ancestors name d groups declarations gateway links memory ps t t₁ t₂ t₃ _ _ hgateway hcalled
      hmemory _
    obtain ⟨hgrows, hlinks⟩ := hcalled
    have hmem := Grows.of_bindMemory hmemory
    have hown : Linked t₃ (planModule s d name ancestors.isEmpty groups declarations gateway links memory
        ps) := List.Forall₂.imp (fun _ _ => LeadsTo.mono hmem.kept) hlinks
    refine ⟨(Grows.of_bindGateway hgateway).trans (hgrows.trans (hmem.trans (.emit hown))), ?_⟩
    exact ⟨_, List.mem_append_right _ (List.mem_singleton.mpr rfl), rfl, rfl, rfl⟩
  case nil =>
    intro chain t
    exact ⟨.of_eq rfl, .nil⟩
  case cons =>
    intro chain delegation d rest name binds links t t₁ t₂ t' hname hfirst hrest
    obtain ⟨-, rfl⟩ := gives_moduleName.mp hname
    obtain ⟨hgrows, p, hp, hdefinition, hmodule, hbinds⟩ := hfirst
    obtain ⟨hgrows', hlinks⟩ := hrest
    have hall := hgrows.trans hgrows'
    exact ⟨⟨hall.kept, hall.linked⟩,
      .cons ⟨rfl, rfl, p, hgrows'.kept hp, hdefinition, hmodule, hbinds⟩ hlinks⟩

/-- In a run that goes through, the root has a module, and all modules are linked. -/
theorem linked_compileRoot {o : Options} {d : Definition} (h : Gives (compileRoot o d) {} () t) :
    (∃ p : ModulePlan, .agentModule p ∈ t.emitted ∧ p.definition = d) ∧
      ∀ p : ModulePlan, .agentModule p ∈ t.emitted → Linked t p := by
  obtain ⟨binds, hcompile⟩ := gives_compileRoot h
  obtain ⟨hgrows, p, hp, hdefinition, -⟩ := (grows_compile _).1 _ _ _ _ _ _ hcompile
  refine ⟨⟨p, hp, hdefinition⟩, fun q hq => (hgrows.linked q hq).resolve_left ?_⟩
  exact List.not_mem_nil

/-- The links of a module have the names of the collaborators that its agent calls. -/
theorem Linked.names {p : ModulePlan} (h : Linked t p) :
    p.links.map Link.name = p.definition.calledNames := by
  unfold Definition.calledNames
  rw [eq_comm, ← List.forall₂_eq_eq_eq, List.forall₂_map_left_iff, List.forall₂_map_right_iff]
  exact List.Forall₂.imp (fun c l hl => by rw [Link.name, hl.delegation]) h

/-- In every module of a run, the names bound for collaborators are distinct, and each collaborator is
reached in its own module, exactly when the names of the collaborators are distinct and none of them is
another one with the ending of an alias. A router has a key for each exactly when they are distinct. -/
theorem links_reached_iff {o : Options} {d : Definition} (h : Gives (compileRoot o d) {} () t) :
    (∃ p : ModulePlan, .agentModule p ∈ t.emitted ∧ p.definition = d) ∧
      ∀ p : ModulePlan, .agentModule p ∈ t.emitted →
        List.Forall₂ (LeadsTo t) p.definition.called p.links ∧
          ((Link.boundNames p.links).Nodup ↔ Link.Apart p.definition.calledNames) ∧
          ((Link.routes p.links).length = p.links.length ↔ p.definition.calledNames.Nodup) ∧
          (Link.Apart p.definition.calledNames → ∀ l ∈ p.links, Link.Reached p.links l) ∧
          ((p.links.map Link.moduleName).Nodup → (∀ l ∈ p.links, Link.Reached p.links l) →
            Link.Apart p.definition.calledNames) := by
  obtain ⟨hroot, hlinked⟩ := linked_compileRoot h
  refine ⟨hroot, fun p hp => ?_⟩
  have hlinks : Linked t p := hlinked p hp
  rw [← hlinks.names]
  refine ⟨hlinks, Link.nodup_boundNames_iff, Link.length_routes_iff, ?_, ?_⟩
  · exact fun hapart l hl => hapart.reached hl
  · exact Link.apart_of_reached

/-- An agent with two collaborators whose names are apart. -/
def helperAndCheck : Definition :=
  .node (supervisor "Lead") [({ name := "helper" }, .node (supervisor "Nora") []),
    ({ name := "helper check" }, .node (supervisor "Olaf") [])]

/-- An agent with two collaborators whose names differ in a capital. -/
def helperAndHelper : Definition :=
  .node (supervisor "Lead") [({ name := "helper" }, .node (supervisor "Nora") []),
    ({ name := "Helper" }, .node (supervisor "Olaf") [])]

theorem links_reached_helperAndCheck :
    ∃ t, Gives (compileRoot {} helperAndCheck) {} () t ∧
      ∃ p : ModulePlan, .agentModule p ∈ t.emitted ∧ p.definition = helperAndCheck ∧
        p.links.length = 2 ∧ ∀ l ∈ p.links, Link.Reached p.links l := by
  have hends : ((compileRoot {} helperAndCheck).run.run {}).1.isOk := by decide +kernel
  obtain ⟨⟨⟩, t, h⟩ | ⟨e, t, h⟩ := gives_or_stops (compileRoot {} helperAndCheck) {}
  · obtain ⟨⟨p, hp, hdefinition⟩, hall⟩ := links_reached_iff h
    obtain ⟨hlinks, -, -, hreached, -⟩ := hall p hp
    rw [hdefinition] at hlinks hreached
    have hapart : Link.Apart helperAndCheck.calledNames := ⟨by decide +kernel, by decide +kernel⟩
    exact ⟨t, h, p, hp, hdefinition, hlinks.length_eq.symm, hreached hapart⟩
  · rw [h] at hends
    cases hends

/-- Names that differ in a capital are one name in the caller's module. -/
theorem links_not_reached_helperAndHelper :
    ∃ t, Gives (compileRoot {} helperAndHelper) {} () t ∧
      ∃ p : ModulePlan, .agentModule p ∈ t.emitted ∧ p.definition = helperAndHelper ∧
        ¬(Link.boundNames p.links).Nodup ∧ (Link.routes p.links).length ≠ p.links.length := by
  have hends : ((compileRoot {} helperAndHelper).run.run {}).1.isOk := by decide +kernel
  obtain ⟨⟨⟩, t, h⟩ | ⟨e, t, h⟩ := gives_or_stops (compileRoot {} helperAndHelper) {}
  · obtain ⟨⟨p, hp, hdefinition⟩, hlinked⟩ := linked_compileRoot h
    have hnames : p.links.map Link.name = helperAndHelper.calledNames := by
      rw [(hlinked p hp).names, hdefinition]
    have hrepeated : ¬helperAndHelper.calledNames.Nodup := by decide +kernel
    refine ⟨t, h, p, hp, hdefinition, fun hnodup => hrepeated ?_, fun hlength => hrepeated ?_⟩
    · exact hnames ▸ (Link.nodup_boundNames_iff.mp hnodup).nodup
    · exact hnames ▸ Link.length_routes_iff.mp hlength
  · rw [h] at hends
    cases hends

end Compilation

end AgentCompiler
