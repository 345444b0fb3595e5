import AgentCompiler.Proofs.Prompt.Foreign

/-!
# The prompts of a definition

The prompts of a module stand in the order of their kinds. The prompt that leads the conversation is always
among them, and those that sum up sessions and choose a collaborator exactly when the agent needs them,
whatever the definition configures: a blank or disabled template gives way to the default.
-/

namespace AgentCompiler.Prompt

variable {s : Setting} {d : Definition} {ps : List Compiled} {kind : PromptKind}

/-- What a step over a list gives comes from the items for which it gives something, in order. -/
theorem map_of_filterMapM {ε α β : Type} {f : α → Except ε (Option β)} (source : β → α)
    (keep : α → Bool) {as : List α} {bs : List β}
    (hf : ∀ a b, f a = .ok b → b.map source = if keep a then some a else none)
    (h : as.filterMapM f = .ok bs) : bs.map source = as.filter keep := by
  induction as generalizing bs with
  | nil =>
      cases h
      rfl
  | cons a as ih =>
      rw [List.filterMapM_cons] at h
      cases hfirst : f a with
      | error e => simp [hfirst, bind, Except.bind] at h
      | ok b =>
          have hkeep := hf a b hfirst
          cases b with
          | none =>
              rw [hfirst] at h
              rw [List.filter_cons_of_neg (by intro hon; simp [hon] at hkeep)]
              exact ih h
          | some b =>
              rw [hfirst] at h
              cases hrest : as.filterMapM f with
              | error e => simp [hrest, bind, Except.bind] at h
              | ok rest =>
                  simp only [hrest, bind, Except.bind, pure, Except.pure, Except.ok.injEq] at h
                  subst h
                  have hon : keep a = true := by
                    by_contra hoff
                    simp [hoff] at hkeep
                  rw [if_pos hon, Option.map_some, Option.some_inj] at hkeep
                  rw [List.filter_cons_of_pos hon, List.map_cons, hkeep, ih hrest]

/-- A module has the prompts of the steps that its agent takes, when they are configured or have a
default. -/
theorem kinds_prompts (h : s.prompts d = .ok ps) :
    ps.map (·.kind) = PromptKind.all.filter fun kind =>
      isApplicable d s.features kind && (source? d.agent kind).isSome := by
  rw [map_of_filterMapM Compiled.kind (fun kind => (source? d.agent kind).isSome) ?_ h,
    List.filter_filter]
  · exact List.filter_congr fun kind _ => Bool.and_comm _ _
  · intro kind compiled hcompiled
    cases hsource : source? d.agent kind with
    | none =>
        rw [hsource] at hcompiled
        cases hcompiled
        rfl
    | some source =>
        obtain ⟨template, inference⟩ := source
        rw [hsource] at hcompiled
        cases hresult : s.compile kind.name template with
        | error fault => simp [hresult, bind, Except.bind] at hcompiled
        | ok text =>
            simp only [hresult, bind, Except.bind, pure, Except.pure, Except.ok.injEq] at hcompiled
            subst hcompiled
            rfl

/-- Where there is a default template, nothing has to be configured. -/
theorem isSome_source? (a : Agent) (h : (defaultTemplate? kind).isSome) : (source? a kind).isSome := by
  have hor {x y : Option String} (hy : y.isSome) : (x <|> y).isSome := by
    cases x with
    | none => exact hy
    | some text => rfl
  rw [source?, Option.isSome_map]
  exact hor h

/-- What the prompts of a module are, whatever is configured. -/
structure Listed (d : Definition) (kinds : List PromptKind) : Prop where
  inOrder : kinds.Sublist PromptKind.all
  leads : .orchestration ∈ kinds
  sumsUp : .memorySummarization ∈ kinds ↔ d.agent.memoryEnabled
  routes : .routingClassifier ∈ kinds ↔ d.isRouter

theorem Listed.nodup {kinds : List PromptKind} (h : Listed d kinds) : kinds.Nodup :=
  h.inOrder.nodup (by decide)

theorem listed_prompts (hfeatures : s.features = .ofAgent d.agent) (h : s.prompts d = .ok ps) :
    Listed d (ps.map (·.kind)) := by
  have hmem (kind : PromptKind) (hdefault : (defaultTemplate? kind).isSome) :
      kind ∈ ps.map (·.kind) ↔ isApplicable d s.features kind := by
    rw [kinds_prompts h, List.mem_filter, isSome_source? d.agent hdefault, Bool.and_true,
      and_iff_right (mem_all_kinds kind)]
  refine ⟨?_, ?_, ?_, ?_⟩
  · rw [kinds_prompts h]
    exact List.filter_sublist
  · exact (hmem .orchestration rfl).mpr rfl
  · rw [hmem .memorySummarization rfl, isApplicable, hfeatures]
    rfl
  · exact hmem .routingClassifier rfl

end AgentCompiler.Prompt
