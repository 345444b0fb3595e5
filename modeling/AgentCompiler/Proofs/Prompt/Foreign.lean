import AgentCompiler.Prompt.Compile
import AgentCompiler.Proofs.Prompt.Fixture
import AgentCompiler.Proofs.Text.Pieces

/-!
# Templates that do not compile

A template compiles when each of its tokens names a placeholder. The default templates do, so that the
prompts of an agent fail exactly when a configured template that is used holds another token.
-/

namespace AgentCompiler.Prompt

variable {s : Setting} {d : Definition} {kind : PromptKind} {template : String}

/-- A template holds a token that names no placeholder. -/
def Foreign (template : String) : Prop :=
  ∃ token ∈ tokens template, Placeholder.ofName? token = none

theorem unknownToken?_eq_none : unknownToken? template = none ↔ ¬Foreign template := by
  simp [unknownToken?, Foreign, List.find?_eq_none]

/-- A template fails to compile exactly when it holds a token that names no placeholder. -/
theorem compile_fails_iff (place : String) :
    (∃ fault, s.compile place template = .error fault) ↔ Foreign template := by
  unfold Setting.compile
  cases hunknown : unknownToken? template with
  | none =>
      have hknown := unknownToken?_eq_none.mp hunknown
      simp [hknown]
  | some name =>
      have hforeign : Foreign template := by
        by_contra hno
        rw [unknownToken?_eq_none.mpr hno] at hunknown
        cases hunknown
      simp [hforeign]

/-! ## Default templates -/

theorem Plain.not_foreign (h : Plain template) : ¬Foreign template := by
  rintro ⟨token, htoken, -⟩
  rw [h.tokens_eq] at htoken
  cases htoken

theorem not_foreign_ofList {cs : List Char} (hs : template = .ofList cs)
    (h : ∀ token ∈ (tokensFrom none cs).map String.ofList, Placeholder.ofName? token ≠ none) :
    ¬Foreign template := by
  rintro ⟨token, htoken, hname⟩
  rw [tokens_ofList hs] at htoken
  exact h token htoken hname

/-- A text that is given line by line has the tokens of its lines. -/
theorem tokens_ofLines (ls : List String) : tokens (Text.ofLines ls) = ls.flatMap tokens := by
  have hlines := (byParts_tokensFrom isBreak_newline).intercalate (ls.map String.toList)
  rw [tokens, Text.toList_ofLines, Text.joinLines, hlines, List.flatMap_map, List.map_flatMap]
  rfl

theorem not_foreign_ofLines {ls : List String} (h : ∀ l ∈ ls, ¬Foreign l) :
    ¬Foreign (Text.ofLines ls) := by
  rintro ⟨token, htoken, hname⟩
  rw [tokens_ofLines] at htoken
  obtain ⟨l, hl, htoken⟩ := List.mem_flatMap.mp htoken
  exact h l hl ⟨token, htoken, hname⟩

/-- The default templates hold no tokens but placeholders. -/
theorem not_foreign_default (h : defaultTemplate? kind = some template) : ¬Foreign template := by
  cases kind <;> cases h
  all_goals
    first | delta orchestrationTemplate | delta summaryTemplate | delta routingTemplate
    apply not_foreign_ofLines
    simp only [List.forall_mem_cons]
    and_intros
  -- A line holds tokens, or was put together from texts without any.
  all_goals first
    | exact not_foreign_ofList rfl (by decide +kernel)
    | exact Plain.not_foreign (by simp only [plain_append]; and_intros <;> exact .ofList rfl (by decide))
    | exact List.forall_mem_nil _

/-! ## The prompts of an agent -/

/-- A step over a list fails exactly when it fails for one of the items. -/
theorem filterMapM_fails_iff {ε α β : Type} {f : α → Except ε (Option β)} {as : List α} :
    (∃ e, as.filterMapM f = .error e) ↔ ∃ a ∈ as, ∃ e, f a = .error e := by
  induction as with
  | nil => simp [pure, Except.pure]
  | cons a as ih =>
      rw [List.filterMapM_cons]
      cases hf : f a with
      | error e => simp [bind, Except.bind, hf]
      | ok b =>
          cases b with
          | none => simpa [bind, Except.bind, hf] using ih
          | some b =>
              cases hrest : as.filterMapM f with
              | error e => simpa [bind, Except.bind, hf, hrest] using ih
              | ok bs => simpa [bind, Except.bind, pure, Except.pure, hf, hrest] using ih

/-- What is compiled for a kind of prompt is foreign exactly when a configured template that is not blank
is. -/
theorem foreign_source_iff {a : Agent} :
    (∃ template inference, source? a kind = some (template, inference) ∧ Foreign template) ↔
      ∃ settings, a.prompt? kind = some settings ∧ ¬Text.blank (templateText settings.template) ∧
        Foreign (templateText settings.template) := by
  have hdefault {template : String} {inference inference' : Inference}
      (h : (defaultTemplate? kind).map (·, inference) = some (template, inference')) :
      ¬Foreign template := by
    obtain ⟨text, htext, heq⟩ := Option.map_eq_some_iff.mp h
    cases heq
    exact not_foreign_default htext
  unfold source?
  cases a.prompt? kind with
  | none =>
      constructor
      · rintro ⟨template, inference, hsource, hforeign⟩
        exact absurd hforeign (hdefault hsource)
      · rintro ⟨settings, hsettings, -⟩
        cases hsettings
  | some settings =>
      by_cases hblank : Text.blank (templateText settings.template)
      · constructor
        · rintro ⟨template, inference, hsource, hforeign⟩
          simp only [Option.map_some, Option.filter_some, hblank] at hsource
          exact absurd hforeign (hdefault hsource)
        · rintro ⟨settings', hsettings, hfull, -⟩
          cases hsettings
          exact absurd hblank hfull
      · simp [Option.filter_some, hblank]

/-- An agent takes a step for which a template is configured that is not blank and holds a token that
names no placeholder. -/
def HasForeignTemplate (d : Definition) : Prop :=
  ∃ kind settings, isApplicable d (.ofAgent d.agent) kind ∧ d.agent.prompt? kind = some settings ∧
    ¬Text.blank (templateText settings.template) ∧ Foreign (templateText settings.template)

theorem mem_all_kinds (kind : PromptKind) : kind ∈ PromptKind.all := by
  cases kind <;> decide

/-- The prompts of an agent fail to compile exactly when a configured template is foreign. -/
theorem prompts_fails_iff (hfeatures : s.features = .ofAgent d.agent) :
    (∃ fault, s.prompts d = .error fault) ↔ HasForeignTemplate d := by
  rw [Setting.prompts, filterMapM_fails_iff, HasForeignTemplate]
  refine exists_congr fun kind => ?_
  rw [List.mem_filter, hfeatures, and_iff_right (mem_all_kinds kind), exists_and_left]
  refine and_congr_right fun _ => ?_
  rw [← foreign_source_iff]
  cases source? d.agent kind with
  | none => simp [pure, Except.pure]
  | some source =>
      obtain ⟨template, inference⟩ := source
      have hcompile : (∃ fault, s.compile kind.name template = .error fault) ↔ Foreign template :=
        compile_fails_iff kind.name
      cases hresult : s.compile kind.name template with
      | error fault =>
          rw [hresult] at hcompile
          simp [bind, Except.bind, hresult, ← hcompile]
      | ok text =>
          rw [hresult] at hcompile
          simp [bind, Except.bind, pure, Except.pure, hresult, ← hcompile]

end AgentCompiler.Prompt
