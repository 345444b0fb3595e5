import AgentCompiler.Assembly.Render
import AgentCompiler.Proofs.Assembly.Mention

/-!
# Names that a module assigns

The sections of the models and of the prompts are made of assignments, one for each prompt of the module.
So a name of a kind of prompt is assigned once when the module has the prompt, and else not at all.
-/

namespace AgentCompiler

open Prompt (mem_all_kinds)
open Text (marker fillChars replaceAll)

variable {profile : Profile} {p : ModulePlan} {kind kind' : PromptKind} {name block : String}

/-- A block of a module that assigns to a name. -/
def Assigns (name block : String) : Prop := (name ++ " = ").toList <+: block.toList

instance (name block : String) : Decidable (Assigns name block) :=
  inferInstanceAs (Decidable (_ <+: _))

namespace ModulePlan

/-- The blocks that the sections of the models and of the prompts are joined from. -/
def assignments (profile : Profile) (p : ModulePlan) : List String :=
  p.modelBlocks profile ++ p.prompts.map (·.render)

/-- One of the blocks assigns to a name, and no other one does. -/
def AssignedOnce (profile : Profile) (p : ModulePlan) (name : String) : Prop :=
  (p.assignments profile).countP (fun block => decide (Assigns name block)) = 1

end ModulePlan

/-! ## What a block assigns to -/

theorem space_notMem_names (h : name ∈ kind.names) : ' ' ∉ name.toList :=
  (Assembly.isName_of_mem_names h).notMem (by decide)

/-- A model is assigned to the variable of its prompt. -/
theorem assigns_modelCode (model : Model.Resolved) (region : String) (i : Inference)
    (guardrail : Option Guardrail) :
    Assigns kind.handle (Assembly.modelCode profile kind model region i guardrail) := by
  have hfill {template : String} (values : List (String × String))
      (htemplate : "llm_".toList ++ (marker "kind".toList ++ " = ".toList) <+: template.toList) :
      Assigns kind.handle (Text.fill template (("kind", kind.name) :: values)) := by
    obtain ⟨rest, hrest⟩ := htemplate
    have hbrace : '{' ∉ "llm_".toList ++ (kind.name.toList ++ " = ".toList) := by
      cases kind <;> decide
    have hfirst : replaceAll (marker "kind".toList) kind.name.toList template.toList =
        "llm_".toList ++ (kind.name.toList ++ " = ".toList) ++
          replaceAll (marker "kind".toList) kind.name.toList rest := by
      rw [← hrest, List.append_assoc, List.append_assoc, Text.replaceAll_append_marker (by decide),
        Text.replaceAll_of_not_infix (by decide), Text.replaceAll_append_of_notMem (by decide)]
      simp only [List.append_assoc]
    rw [Assigns, Text.toList_fill, Text.fillChars_cons, hfirst, Text.fillChars_append_of_notMem hbrace,
      PromptKind.handle, String.toList_append, String.toList_append, List.append_assoc]
    exact List.prefix_append _ _
  have hlines {ls : List String} {cs : List (List Char)}
      (hls : List.Forall₂ (fun s c => s = .ofList c) ls cs)
      (h : "llm_".toList ++ (marker "kind".toList ++ " = ".toList) <+: Text.joinLines cs) :=
    Text.of_ofLines (P := fun s => "llm_".toList ++ (marker "kind".toList ++ " = ".toList) <+: s) hls h
  cases profile with
  | langgraph => exact hfill _ (hlines (by repeat' constructor) (by decide))
  | strands => exact hfill _ (hlines (by repeat' constructor) (by decide))

theorem assigns_render (q : Prompt.Compiled) : Assigns q.kind.constant q.render := by
  have hrender : q.render.toList = (q.kind.constant ++ " = ").toList ++
      (Code.tripleQuote ("\n" ++ Text.trim q.template ++ "\n")).toList := String.toList_append
  rw [Assigns, hrender]
  exact List.prefix_append _ _

/-- A block assigns to one name. -/
theorem Assigns.eq {name' : String} (h : Assigns name block) (h' : Assigns name' block)
    (hname : ' ' ∉ name.toList) (hname' : ' ' ∉ name'.toList) : name = name' := by
  have hstart {n : String} (hn : ' ' ∉ n.toList) (hassigns : Assigns n block) :
      block.toList.takeWhile (· != ' ') = n.toList := by
    obtain ⟨rest, hrest⟩ := hassigns
    rw [← hrest, String.toList_append, List.append_assoc]
    show (n.toList ++ ' ' :: ('=' :: ' ' :: rest)).takeWhile (· != ' ') = n.toList
    rw [List.takeWhile_append_of_pos fun c hc => by simpa using fun heq : c = ' ' => hn (heq ▸ hc)]
    simp
  exact String.toList_inj.mp ((hstart hname h).symm.trans (hstart hname' h'))

theorem PromptKind.handle_inj : kind.handle = kind'.handle ↔ kind' = kind :=
  (by decide : ∀ k ∈ PromptKind.all, ∀ k' ∈ PromptKind.all, k.handle = k'.handle ↔ k' = k)
    kind (mem_all_kinds kind) kind' (mem_all_kinds kind')

theorem PromptKind.constant_inj : kind.constant = kind'.constant ↔ kind' = kind :=
  (by decide : ∀ k ∈ PromptKind.all, ∀ k' ∈ PromptKind.all, k.constant = k'.constant ↔ k' = k)
    kind (mem_all_kinds kind) kind' (mem_all_kinds kind')

theorem PromptKind.handle_ne_constant (kind kind' : PromptKind) : kind.handle ≠ kind'.constant :=
  (by decide : ∀ k ∈ PromptKind.all, ∀ k' ∈ PromptKind.all, k.handle ≠ k'.constant)
    kind (mem_all_kinds kind) kind' (mem_all_kinds kind')

/-! ## How often a name is assigned -/

theorem assigns_modelCode_iff (model : Model.Resolved) (region : String) (i : Inference)
    (guardrail : Option Guardrail) (hname : ' ' ∉ name.toList) :
    Assigns name (Assembly.modelCode profile kind' model region i guardrail) ↔ name = kind'.handle := by
  have hassigns : Assigns kind'.handle (Assembly.modelCode profile kind' model region i guardrail) :=
    assigns_modelCode model region i guardrail
  constructor
  · exact fun h => h.eq hassigns hname (space_notMem_names List.mem_cons_self)
  · rintro rfl
    exact hassigns

theorem assigns_render_iff (q : Prompt.Compiled) (hname : ' ' ∉ name.toList) :
    Assigns name q.render ↔ name = q.kind.constant := by
  constructor
  · exact fun h => h.eq (assigns_render q) hname
      (space_notMem_names (List.mem_cons_of_mem _ List.mem_cons_self))
  · rintro rfl
    exact assigns_render q

namespace ModulePlan

/-- Of the two blocks for a prompt, the model assigns to one of its names, and the template to the other. -/
theorem countP_assigns (hname : name ∈ kind.names) :
    (p.assignments profile).countP (fun block => decide (Assigns name block)) =
      (p.prompts.map (·.kind)).count kind := by
  have hspace := space_notMem_names hname
  rw [assignments, modelBlocks, List.countP_append, List.countP_map, List.countP_map, List.count,
    List.countP_map]
  have hmodels : p.prompts.countP ((fun block => decide (Assigns name block)) ∘ fun q =>
      Assembly.modelCode profile q.kind p.model p.agent.region q.inference p.agent.guardrail) =
      p.prompts.countP fun q => decide (name = q.kind.handle) :=
    List.countP_congr fun q _ => by simp [assigns_modelCode_iff _ _ _ _ hspace]
  have hconstants : p.prompts.countP ((fun block => decide (Assigns name block)) ∘ (·.render)) =
      p.prompts.countP fun q => decide (name = q.kind.constant) :=
    List.countP_congr fun q _ => by simp [assigns_render_iff q hspace]
  rw [hmodels, hconstants]
  simp only [PromptKind.names, List.mem_cons, List.not_mem_nil, or_false] at hname
  rcases hname with rfl | rfl
  · have hnone : p.prompts.countP (fun q => decide (kind.handle = q.kind.constant)) = 0 :=
      List.countP_eq_zero.mpr fun q _ => by simpa using PromptKind.handle_ne_constant kind q.kind
    rw [hnone, Nat.add_zero]
    exact List.countP_congr fun q _ => by simp [PromptKind.handle_inj]
  · have hnone : p.prompts.countP (fun q => decide (kind.constant = q.kind.handle)) = 0 :=
      List.countP_eq_zero.mpr fun q _ => by simpa using (PromptKind.handle_ne_constant q.kind kind).symm
    rw [hnone, Nat.zero_add]
    exact List.countP_congr fun q _ => by simp [PromptKind.constant_inj]

/-- A name of a kind of prompt is assigned once in a module that has the prompt, and only there. -/
theorem assignedOnce_iff (hnodup : (p.prompts.map (·.kind)).Nodup) (hname : name ∈ kind.names) :
    p.AssignedOnce profile name ↔ kind ∈ p.prompts.map (·.kind) := by
  rw [AssignedOnce, countP_assigns hname]
  constructor
  · exact fun h => List.count_pos_iff.mp (by omega)
  · exact List.count_eq_one_of_mem hnodup

end ModulePlan

end AgentCompiler
