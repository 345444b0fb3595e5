import Mathlib.Data.List.Nodup
import AgentCompiler.Proofs.Compilation.Step
import AgentCompiler.Proofs.Name.Joined
import AgentCompiler.Proofs.Text.Pieces

/-!
# Names of modules

A run counts how often each base of a name is wanted, and numbers the name from the second time on. It
does not look at the bases that are wanted themselves, and a base may look like a numbered one. So the
names are pairwise distinct exactly when none of the numbered names is wanted as a base.
-/

namespace AgentCompiler.Compilation

variable {bases before : List String} {base base' name : String} {m n : Nat}

/-! ## Numbered names -/

/-- A number is written without underscores. -/
theorem underscore_notMem_natural (n : Nat) : '_' ∉ (Decimal.natural n).toList := by
  rw [Decimal.natural, String.toList_ofList]
  intro hmem
  exact Name.ne_underscore_of_isWordChar (Name.isWordChar_of_mem_digitChars hmem) rfl

/-- A numbered name tells its base and its number. -/
theorem numbered_inj (h : Name.numbered base m = Name.numbered base' n) : base = base' ∧ m = n := by
  have hchars := congrArg String.toList h
  simp only [Name.numbered, String.toList_append] at hchars
  have hcut : base.toList ++ '_' :: (Decimal.natural m).toList =
      base'.toList ++ '_' :: (Decimal.natural n).toList := by
    simpa using hchars
  obtain ⟨hbase, hnumber⟩ := Text.append_cons_inj_of_last (underscore_notMem_natural m)
    (underscore_notMem_natural n) hcut
  exact ⟨String.toList_injective hbase, Name.natural_injective (String.toList_injective hnumber)⟩

/-! ## The names of a sequence of bases -/

/-- Each base with the number of times that it was wanted by then. -/
def occurrences (before : List String) : List String → List (String × Nat)
  | [] => []
  | base :: bases => (base, before.count base + 1) :: occurrences (before ++ [base]) bases

/-- The names for a sequence of bases, when others were wanted before. -/
def namesFrom (before bases : List String) : List String :=
  (occurrences before bases).map fun e => numbered e.1 e.2

/-- An occurrence is known by its base and its number, which counts on from the bases before. -/
theorem mem_occurrences :
    (base, n) ∈ occurrences before bases ↔
      before.count base < n ∧ n ≤ before.count base + bases.count base := by
  induction bases generalizing before with
  | nil =>
      rw [occurrences, List.count_nil]
      constructor
      · intro h
        cases h
      · omega
  | cons first bases ih =>
      rw [occurrences, List.mem_cons, ih, Prod.mk.injEq]
      by_cases hbase : base = first
      · subst hbase
        rw [List.count_append, List.count_singleton_self, List.count_cons_self]
        simp only [true_and]
        omega
      · have hne : base ∉ [first] := by simpa using hbase
        rw [List.count_append, List.count_eq_zero_of_not_mem hne,
          List.count_cons_of_ne (Ne.symm hbase)]
        simp only [hbase, false_and, false_or]
        omega

theorem nodup_occurrences : (occurrences before bases).Nodup := by
  induction bases generalizing before with
  | nil => exact List.nodup_nil
  | cons base bases ih =>
      refine List.nodup_cons.mpr ⟨fun hmem => ?_, ih⟩
      -- The later occurrences of the base have higher numbers.
      have hlater := (mem_occurrences.mp hmem).1
      rw [List.count_append, List.count_singleton_self] at hlater
      omega

theorem occurrences_append (before bases more : List String) :
    occurrences before (bases ++ more) =
      occurrences before bases ++ occurrences (before ++ bases) more := by
  induction bases generalizing before with
  | nil => simp [occurrences]
  | cons base bases ih =>
      rw [List.cons_append, occurrences, occurrences, ih, List.cons_append, List.append_assoc]
      rfl

theorem namesFrom_append (before bases more : List String) :
    namesFrom before (bases ++ more) = namesFrom before bases ++ namesFrom (before ++ bases) more := by
  rw [namesFrom, occurrences_append, List.map_append]
  rfl

/-- Names that are wanted one after the other are given. -/
theorem gives_mapM_moduleName {names : List String} {t t' : State} :
    Gives (bases.mapM moduleName) t names t' ↔
      names = namesFrom t.wanted bases ∧ t' = { t with wanted := t.wanted ++ bases } := by
  induction bases generalizing t names with
  | nil =>
      rw [List.mapM_nil, gives_pure, List.append_nil]
      rfl
  | cons base bases ih =>
      have happend : t.wanted ++ base :: bases = t.wanted ++ [base] ++ bases := by simp
      rw [List.mapM_cons, gives_bind, happend]
      constructor
      · rintro ⟨name, t₁, hname, h⟩
        obtain ⟨names', t₂, hnames, h⟩ := gives_bind.mp h
        obtain ⟨rfl, rfl⟩ := gives_pure.mp h
        obtain ⟨rfl, rfl⟩ := gives_moduleName.mp hname
        obtain ⟨rfl, rfl⟩ := ih.mp hnames
        exact ⟨rfl, rfl⟩
      · rintro ⟨rfl, rfl⟩
        refine ⟨_, _, gives_moduleName.mpr ⟨rfl, rfl⟩, gives_bind.mpr ⟨_, _, ih.mpr ⟨rfl, rfl⟩, ?_⟩⟩
        exact gives_pure.mpr ⟨rfl, rfl⟩

/-- No base is wanted that another base is numbered to. -/
def NumbersApart (bases : List String) : Prop :=
  ∀ base ∈ bases, ∀ n ≤ bases.count base, 2 ≤ n → Name.numbered base n ∉ bases

instance (bases : List String) : Decidable (NumbersApart bases) :=
  inferInstanceAs (Decidable
    (∀ base ∈ bases, ∀ n ≤ bases.count base, 2 ≤ n → Name.numbered base n ∉ bases))

/-- The names for a sequence of bases are pairwise distinct exactly when none of the numbered names is
wanted as a base. -/
theorem nodup_namesFrom_nil : (namesFrom [] bases).Nodup ↔ NumbersApart bases := by
  have hmem {base : String} {n : Nat} :
      (base, n) ∈ occurrences [] bases ↔ 0 < n ∧ n ≤ bases.count base := by
    rw [mem_occurrences, List.count_nil, Nat.zero_add]
  rw [namesFrom, List.nodup_map_iff_inj_on nodup_occurrences]
  constructor
  · intro hinj base hbase n hcount htwo hwanted
    -- The numbered name would be that of the other base when it is wanted first.
    have hfirst : (Name.numbered base n, 1) ∈ occurrences [] bases :=
      hmem.mpr ⟨Nat.one_pos, List.count_pos_iff.mpr hwanted⟩
    have hnumber : (base, n) ∈ occurrences [] bases := hmem.mpr ⟨by omega, hcount⟩
    have hname : numbered base n = numbered (Name.numbered base n) 1 := by
      rw [numbered, if_neg (by omega)]
      rfl
    have heq := congrArg Prod.snd (hinj _ hnumber _ hfirst hname)
    dsimp only at heq
    omega
  · rintro hapart ⟨base, m⟩ hm ⟨base', n⟩ hn h
    obtain ⟨hm, hm'⟩ := hmem.mp hm
    obtain ⟨hn, hn'⟩ := hmem.mp hn
    have hbase : base ∈ bases := List.count_pos_iff.mp (by omega)
    have hbase' : base' ∈ bases := List.count_pos_iff.mp (by omega)
    dsimp only [numbered] at h
    split at h
    · next hone =>
        split at h
        · next hone' =>
            obtain rfl : m = 1 := by omega
            obtain rfl : n = 1 := by omega
            rw [h]
        · rw [h] at hbase
          exact absurd hbase (hapart base' hbase' n hn' (by omega))
    · split at h
      · rw [← h] at hbase'
        exact absurd hbase' (hapart base hbase m hm' (by omega))
      · obtain ⟨rfl, rfl⟩ := numbered_inj h
        rfl

/-! ## The modules of a run -/

/-- The base of the name of a collaborator's module. -/
def collaboratorBase (platform : String) (delegation : Delegation) : String :=
  platform ++ "_collaborator_" ++ Name.snake delegation.name

mutual
/-- The bases that are wanted below a definition, in the order in which agents are compiled. -/
def basesBelow (platform : String) : Definition → List String
  | .node a collaborators =>
    if (Definition.node a collaborators).collaborates then basesOf platform collaborators else []
/-- The bases that are wanted for collaborators and below them. -/
def basesOf (platform : String) : List (Delegation × Definition) → List String
  | [] => []
  | (delegation, d) :: rest =>
    collaboratorBase platform delegation :: (basesBelow platform d ++ basesOf platform rest)
end

/-- The bases that are wanted in a run for a root. -/
def basesOfRoot (platform : String) (d : Definition) : List String :=
  (platform ++ "_" ++ Name.snake d.agent.name) :: basesBelow platform d

/-- The names of the modules that a run has emitted. -/
def State.moduleNames (t : State) : List String := (t.emitted.filterMap (·.plan?)).map (·.name)

/-- Between two states names were wanted for some bases. Modules came in with these names, and with
those of `owed`. -/
structure Adds (bases owed : List String) (t t' : State) : Prop where
  wanted : t'.wanted = t.wanted ++ bases
  moduleNames : t'.moduleNames.Perm (t.moduleNames ++ (owed ++ namesFrom t.wanted bases))

namespace Adds

variable {bases' owed owed' : List String} {t t₁ t' : State}

/-- Nothing was wanted and no module came in. -/
theorem of_eq (hwanted : t'.wanted = t.wanted) (hnames : t'.moduleNames = t.moduleNames) :
    Adds [] [] t t' := by
  refine ⟨?_, ?_⟩
  · rw [hwanted, List.append_nil]
  · rw [hnames]
    show t.moduleNames.Perm (t.moduleNames ++ [])
    rw [List.append_nil]

theorem trans (h : Adds bases owed t t₁) (h' : Adds bases' owed' t₁ t') :
    Adds (bases ++ bases') (owed ++ owed') t t' := by
  refine ⟨?_, ?_⟩
  · rw [h'.wanted, h.wanted, List.append_assoc]
  rw [namesFrom_append, ← h.wanted]
  refine h'.moduleNames.trans ((h.moduleNames.append_right _).trans ?_)
  simp only [List.append_assoc]
  refine List.Perm.append_left _ (List.Perm.append_left _ ?_)
  -- What the second part owes comes before what the first part wanted.
  rw [← List.append_assoc, ← List.append_assoc]
  exact List.perm_append_comm.append_right _

/-- A module comes in under a name that it is owed. -/
theorem emit (h : Adds bases owed t t') (p : ModulePlan) :
    Adds bases (p.name :: owed) t { t' with emitted := t'.emitted ++ [.agentModule p] } := by
  refine ⟨h.wanted, ?_⟩
  have hadded : ({ t' with emitted := t'.emitted ++ [.agentModule p] } : State).moduleNames =
      t'.moduleNames ++ [p.name] := by
    simp [State.moduleNames, Emission.plan?]
  rw [hadded]
  refine (h.moduleNames.append_right _).trans ?_
  rw [List.append_assoc]
  exact List.Perm.append_left _ (List.perm_append_singleton _ _)

/-- A name is owed when it is wanted. -/
theorem of_moduleName (hname : Gives (moduleName base) t name t₁) (h : Adds bases [name] t₁ t') :
    Adds (base :: bases) [] t t' := by
  obtain ⟨rfl, rfl⟩ := gives_moduleName.mp hname
  refine ⟨?_, h.moduleNames⟩
  rw [h.wanted, List.append_assoc]
  rfl

end Adds

section

variable {s : Scope} {t t' : State}

theorem adds_bindGateway {a : Agent} {isRoot : Bool} {groups : List ToolGroup}
    {binding : Option GatewayBinding} (h : Gives (bindGateway s a name isRoot groups) t binding t') :
    Adds [] [] t t' := by
  obtain ⟨hwanted, ⟨-, -, rfl⟩ | ⟨plan, handle, functionRef, -, -, hemitted⟩⟩ := gives_bindGateway h
  · exact .of_eq rfl rfl
  · refine .of_eq hwanted ?_
    simp [State.moduleNames, hemitted, Emission.plan?]

theorem adds_bindMemory {a : Agent} {memory : MemoryBinding}
    (h : Gives (bindMemory s a name) t memory t') : Adds [] [] t t' := by
  rcases gives_bindMemory h with rfl | rfl
  · exact .of_eq rfl rfl
  · exact .of_eq rfl rfl

/-- The bases that are wanted below an agent are those for the collaborators that it calls. -/
theorem basesBelow_eq (platform : String) (d : Definition) :
    basesBelow platform d = basesOf platform d.called := by
  obtain ⟨a, cs⟩ := d
  rw [basesBelow, Definition.called]
  split
  · rfl
  · rw [basesOf]

/-- Names are wanted for the collaborators below an agent. Their modules have these names, and its own
module has the name that it is compiled under. -/
theorem adds_compile (s : Scope) :
    (∀ ancestors name d t binds t', Gives (compile s ancestors name d) t binds t' →
        Adds (basesBelow s.platform d) [name] t t') ∧
      ∀ chain cs t links t', Gives (compileAll s chain cs) t links t' →
        Adds (basesOf s.platform cs) [] t t' := by
  refine gives_induction ?node ?nil ?cons
  case node =>
    intro ancestors name d groups declarations gateway links memory ps t t₁ t₂ t₃ _ _ hgateway hcalled
      hmemory _
    -- The modules below come in first, and the name of the agent is owed until its own does.
    have hall := (adds_bindGateway hgateway).trans (hcalled.trans (adds_bindMemory hmemory))
    rw [List.nil_append, List.append_nil, ← basesBelow_eq] at hall
    exact hall.emit (planModule s d name ancestors.isEmpty groups declarations gateway links memory ps)
  case nil =>
    intro chain t
    exact .of_eq rfl rfl
  case cons =>
    intro chain delegation d rest name binds links t t₁ t₂ t' hname hfirst hrest
    exact (Adds.of_moduleName hname hfirst).trans hrest

/-- The modules of a run have the names for the bases that are wanted in it. -/
theorem moduleNames_compileRoot {o : Options} {d : Definition}
    (h : Gives (compileRoot o d) {} () t) :
    t.wanted = basesOfRoot o.profile.platform d ∧
      t.moduleNames.Perm (namesFrom [] (basesOfRoot o.profile.platform d)) := by
  obtain ⟨binds, hcompile⟩ := gives_compileRoot h
  have hadds := (adds_compile _).1 _ _ _ _ _ _ hcompile
  exact ⟨hadds.wanted, hadds.moduleNames⟩

end

/-- The names for a sequence of bases, and those of the modules of a run, are pairwise distinct exactly
when none of the numbered names is wanted as a base. -/
theorem moduleNames_nodup_iff (bases : List String) (o : Options) (d : Definition) :
    (∃ names t, Gives (bases.mapM moduleName) {} names t ∧ (names.Nodup ↔ NumbersApart bases)) ∧
      ∀ t, Gives (compileRoot o d) {} () t →
        (t.moduleNames.Nodup ↔ NumbersApart (basesOfRoot o.profile.platform d)) := by
  refine ⟨?_, fun t h => ?_⟩
  · exact ⟨_, _, gives_mapM_moduleName.mpr ⟨rfl, rfl⟩, nodup_namesFrom_nil⟩
  · rw [(moduleNames_compileRoot h).2.nodup_iff]
    exact nodup_namesFrom_nil

/-- An agent that calls its collaborators. Its template is short. -/
def supervisor (name : String) : Agent where
  name := name
  modelId := "anthropic.claude-3-haiku-20240307-v1:0"
  collaboration := .supervisor
  prompts := [{ kind := .orchestration, template := .str "Answer the question." }]

/-- An agent with two collaborators of one name. -/
def twoHelpers : Definition :=
  .node (supervisor "Lead") [({ name := "helper" }, .node (supervisor "Nora") []),
    ({ name := "helper" }, .node (supervisor "Olaf") [])]

/-- An agent with a helper that has a helper of its own, where another helper is named like a second
one. -/
def numberedHelpers : Definition :=
  .node (supervisor "Lead") [({ name := "helper_2" }, .node (supervisor "Nora") []),
    ({ name := "helper" }, .node (supervisor "Olaf")
      [({ name := "helper" }, .node (supervisor "Petra") [])])]

theorem moduleNames_nodup_twoHelpers :
    ∃ t, Gives (compileRoot {} twoHelpers) {} () t ∧ t.moduleNames.Nodup := by
  have hends : ((compileRoot {} twoHelpers).run.run {}).1.isOk := by decide +kernel
  obtain ⟨⟨⟩, t, h⟩ | ⟨e, t, h⟩ := gives_or_stops (compileRoot {} twoHelpers) {}
  · have hapart : NumbersApart (basesOfRoot "langchain" twoHelpers) := by decide +kernel
    exact ⟨t, h, ((moduleNames_nodup_iff [] {} twoHelpers).2 t h).mpr hapart⟩
  · rw [h] at hends
    cases hends

theorem moduleNames_not_nodup_numberedHelpers :
    (∃ names t, Gives (["helper_2", "helper", "helper"].mapM moduleName) {} names t ∧ ¬names.Nodup) ∧
      ∃ t, Gives (compileRoot {} numberedHelpers) {} () t ∧ ¬t.moduleNames.Nodup := by
  refine ⟨⟨_, _, gives_mapM_moduleName.mpr ⟨rfl, rfl⟩, ?_⟩, ?_⟩
  · decide +kernel
  have hends : ((compileRoot {} numberedHelpers).run.run {}).1.isOk := by decide +kernel
  obtain ⟨⟨⟩, t, h⟩ | ⟨e, t, h⟩ := gives_or_stops (compileRoot {} numberedHelpers) {}
  · refine ⟨t, h, ?_⟩
    rw [(moduleNames_compileRoot h).2.nodup_iff]
    decide +kernel
  · rw [h] at hends
    cases hends

end AgentCompiler.Compilation
