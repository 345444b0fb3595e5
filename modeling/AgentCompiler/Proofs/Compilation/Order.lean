import AgentCompiler.Proofs.Code.Line
import AgentCompiler.Proofs.Compilation.Tree

/-!
# The order of the modules of a run

Names of modules are given on the way down the tree of agents, and modules are emitted on the way up,
with dispatch functions between them. `modules_in_order` says that the modules stand in postorder, and
that every module imports its collaborators from modules in front of it.
-/

namespace AgentCompiler

namespace Definition

/-- A chain of agents, in which each of the first `n` calls one other agent and the last one none. -/
inductive Chain : Nat → Definition → Prop
  | last {d : Definition} (called : d.called = []) : Chain 0 d
  | call {n : Nat} {d : Definition} {c : Delegation × Definition} (called : d.called = [c])
      (below : Chain n c.2) : Chain (n + 1) d

theorem Chain.length_postorder {n : Nat} {d : Definition} (h : Chain n d) :
    d.postorder.length = n + 1 := by
  induction h with
  | last called =>
      rw [postorder_eq, called]
      rfl
  | call called below ih =>
      rw [postorder_eq, called, List.flatMap_singleton, List.length_append, ih]
      rfl

end Definition

namespace Compilation

open Emission (plans)

variable {s : Scope}

/-! ## What stands in front of a module -/

/-- Every module is linked to modules in front of it. -/
def Ordered (es : List Emission) : Prop :=
  ∀ before q after, es = before ++ .agentModule q :: after → Linked { emitted := before } q

theorem Ordered.append {es es' : List Emission} (h : Ordered es)
    (h' : ∀ before q after, es' = before ++ .agentModule q :: after →
      Linked { emitted := es ++ before } q) : Ordered (es ++ es') := by
  intro before q after heq
  -- The module stands in the second list, at its very start or behind, or else in the first one.
  rcases List.append_eq_append_iff.mp heq with ⟨more, rfl, hes'⟩ | ⟨more, hes, hes'⟩
  · exact h' more q after hes'
  · cases more with
    | nil =>
        have hlinked := h' [] q after hes'.symm
        rw [hes, List.append_nil, List.append_nil] at hlinked
        exact hlinked
    | cons e more =>
        obtain ⟨rfl, -⟩ := List.cons_eq_cons.mp hes'
        exact h before q more hes

theorem ordered_dispatch (functions : List Gateway.Dispatch) : Ordered (functions.map .dispatch) := by
  intro before q after heq
  have hmem : .agentModule q ∈ functions.map Emission.dispatch := by
    rw [heq]
    exact List.mem_append_right _ List.mem_cons_self
  obtain ⟨f, -, hf⟩ := List.mem_map.mp hmem
  cases hf

mutual
/-- Every module that is emitted for a definition is linked to modules in front of it. -/
theorem Compiled.ordered : ∀ {top : Bool} {d : Definition} {es : List Emission} {p : ModulePlan},
    Compiled s top d es p → Ordered es
  | _, _, _, p, @Compiled.node _ _ _ _ _ below _ _ definition called => by
      have hown : Linked { emitted := below } p := by
        rw [Linked, definition]
        exact called.linked
      have hmodule : Ordered (below ++ [.agentModule p]) := by
        refine called.ordered.append fun before q after heq => ?_
        obtain ⟨rfl, rfl⟩ : before = [] ∧ q = p := by
          cases before with
          | nil =>
              cases heq
              exact ⟨rfl, rfl⟩
          | cons e before => simp at heq
        exact hown.mono (List.subset_append_left _ _)
      refine (ordered_dispatch _).append fun before q after heq => ?_
      exact (hmodule before q after heq).mono (List.subset_append_right _ _)
theorem CompiledAll.ordered : ∀ {cs : List (Delegation × Definition)} {links : List Link}
    {es : List Emission}, CompiledAll s cs links es → Ordered es
  | _, _, _, .nil => ordered_dispatch []
  | _, _, _, .cons head _ tail => by
      refine head.ordered.append fun before q after heq => ?_
      exact (tail.ordered before q after heq).mono (List.subset_append_right _ _)
end

/-! ## Import lines -/

theorem isKeyChar_of_mem_numbered {base : String} (h : ∀ c ∈ base.toList, Name.isKeyChar c) (n : Nat) :
    ∀ c ∈ (numbered base n).toList, Name.isKeyChar c := by
  unfold numbered
  split
  · exact h
  · intro c hc
    rw [Name.numbered, String.toList_append, String.toList_append] at hc
    rcases List.mem_append.mp hc with hc | hc
    · rcases List.mem_append.mp hc with hc | hc
      · exact h c hc
      · exact List.all_eq_true.mp (by decide : ("_" : String).toList.all Name.isKeyChar) c hc
    · rw [Decimal.natural, String.toList_ofList] at hc
      exact Name.isKeyChar_of_isWordChar (Name.isWordChar_of_mem_digitChars hc)

/-- A collaborator's module has the name of the collaborator, which may be numbered. -/
theorem CompiledAll.moduleName_eq {cs : List (Delegation × Definition)} {links : List Link}
    {es : List Emission} (h : CompiledAll s cs links es) {l : Link} (hl : l ∈ links) :
    ∃ n, l.moduleName = numbered (collaboratorBase s.platform l.delegation) n := by
  induction cs generalizing links es with
  | nil =>
      cases h
      cases hl
  | cons c cs ih =>
      cases h with
      | cons head name tail =>
          rcases List.mem_cons.mp hl with rfl | hl
          · exact ⟨_, name⟩
          · exact ih tail hl

/-- An import line is one line, and does not end with a blank. -/
theorem importLine_spec {profile : Profile} {l : Link} {n : Nat}
    (hname : l.moduleName = numbered (collaboratorBase profile.platform l.delegation) n) :
    '\n' ∉ l.importLine.toList ∧ Text.EndsInk l.importLine.toList := by
  have hfeed {chars : List Char} (h : ∀ c ∈ chars, Name.isKeyChar c) : '\n' ∉ chars :=
    fun hmem => absurd (h '\n' hmem) (by decide)
  have hsnake : '\n' ∉ (Name.snake l.delegation.name).toList :=
    hfeed (Name.joined_snake l.delegation.name).1.chars
  have hmodule : '\n' ∉ l.moduleName.toList := by
    rw [hname]
    refine hfeed (isKeyChar_of_mem_numbered (fun c hc => ?_) n)
    have hplatform : profile.platform.toList.all Name.isKeyChar := by cases profile <;> decide
    rw [collaboratorBase, String.toList_append, String.toList_append] at hc
    rcases List.mem_append.mp hc with hc | hc
    · rcases List.mem_append.mp hc with hc | hc
      · exact List.all_eq_true.mp hplatform c hc
      · exact List.all_eq_true.mp (by decide : ("_collaborator_" : String).toList.all Name.isKeyChar) c hc
    · exact (Name.joined_snake l.delegation.name).1.chars c hc
  have hinvoke : Text.EndsInk l.invokeAlias.toList := by
    rw [Link.invokeAlias, String.toList_append]
    exact Text.EndsInk.append ⟨'r', rfl, by decide⟩
  have hbind : Text.EndsInk l.bindAlias.toList := by
    rw [Link.bindAlias, String.toList_append]
    exact Text.EndsInk.append ⟨'r', rfl, by decide⟩
  unfold Link.importLine
  split
  · refine ⟨?_, ?_⟩
    · simp [Link.bindAlias, Link.invokeAlias, Link.toolName, Link.name, hsnake, hmodule]
    · rw [String.toList_append]
      exact hbind.append
  · refine ⟨?_, ?_⟩
    · simp [Link.invokeAlias, Link.toolName, Link.name, hsnake, hmodule]
    · rw [String.toList_append]
      exact hinvoke.append

/-- The import lines of a module stand in its text. -/
theorem mem_lines_render {profile : Profile} {p : ModulePlan} {l : Link} (hl : l ∈ p.links)
    (h : '\n' ∉ l.importLine.toList ∧ Text.EndsInk l.importLine.toList) :
    l.importLine.toList ∈ Text.lines (p.render profile).toList := by
  have hline : l.importLine.toList ∈
      (Text.ofLines (p.links.map (·.importLine))).toList.splitOn '\n' :=
    Text.mem_splitOn_ofLines (List.mem_map.mpr ⟨l, hl, rfl⟩) h.1
  have hblock : Text.ofLines (p.links.map (·.importLine)) ∈ p.importBlocks profile := by
    refine List.mem_append_left _ (List.mem_append_left _ (List.mem_append_right _ ?_))
    have hlinks : (!p.links.isEmpty) = true := by
      rw [List.isEmpty_eq_false_iff_exists_mem.mpr ⟨l, hl⟩]
      rfl
    rw [ModulePlan.blockIf, if_pos hlinks]
    exact List.mem_singleton_self _
  have himports : (p.sections profile).imports =
      String.intercalate "\n\n" (p.importBlocks profile) := by
    rw [ModulePlan.sections]
  have hsection : (p.sections profile).imports ∈ (p.sections profile).toList := List.mem_cons_self
  refine Code.Sections.mem_lines_assemble hsection h.2 ?_
  rw [himports, String.toList_intercalate]
  exact Text.mem_splitOn_intercalate (List.mem_map_of_mem hblock) hline 1

/-! ## Modules in order -/

/-- A module whose text is given imports a collaborator from a module in front of it. -/
structure Imported (before : List Emission) (text : String) (c : Delegation × Definition) (l : Link) :
    Prop where
  source : ∃ r : ModulePlan, .agentModule r ∈ before ∧ r.definition = c.2 ∧
    l.importLine = "from " ++ r.name ++ " import " ++
      String.intercalate ", " (l.imports.map fun (function, name) => function ++ " as " ++ name)
  line : l.importLine.toList ∈ Text.lines text.toList

/-- Every module imports the collaborators that its agent calls, in order. -/
theorem Compiled.imported {top : Bool} {d : Definition} {es before after : List Emission}
    {p q : ModulePlan} (h : Compiled s top d es p) (heq : es = before ++ .agentModule q :: after) :
    List.Forall₂ (Imported before (q.render s.options.profile)) q.definition.called q.links := by
  have hq : .agentModule q ∈ es := by
    rw [heq]
    exact List.mem_append_right _ List.mem_cons_self
  obtain ⟨_, _, hpart⟩ := h.part hq
  have hlines : ∀ l ∈ q.links, l.importLine.toList ∈
      Text.lines (q.render s.options.profile).toList := by
    cases hpart with
    | node planned isRoot definition called =>
        intro l hl
        obtain ⟨n, hname⟩ := called.moduleName_eq hl
        exact mem_lines_render hl (importLine_spec hname)
  have hlinked : Linked { emitted := before } q := h.ordered before q after heq
  -- The links come with their lines, and the collaborators are paired with them.
  refine (List.Forall₂.imp (fun l c hl => ?_)
    ((List.forall₂_and_left _ _).mpr ⟨hlines, hlinked.flip⟩)).flip
  obtain ⟨hline, hleads⟩ := hl
  obtain ⟨r, hr, hdefinition, hname, -⟩ := hleads.target
  refine ⟨⟨r, hr, hdefinition, ?_⟩, hline⟩
  rw [hname]
  exact l.importLine_eq

/-- In a run that goes through, the modules stand in postorder of the agents that are called: one for
each, and that of the root last. Every import of a collaborator is a line of its module, and names the
module that was emitted for the collaborator, whose file stands in front. -/
theorem modules_in_order {o : Options} {d : Definition} {out : Output}
    (h : (run o d).result = .ok out) :
    ∃ t, out.files = t.emitted.map (Emission.file o.profile) ++ extraFiles o t ∧
      (plans t.emitted).map (·.definition) = d.postorder ∧
      (∀ n, d.Chain n → (plans t.emitted).length = n + 1) ∧
      (∃ init root, t.emitted = init ++ [.agentModule root] ∧ root.definition = d) ∧
      ∀ before q after, t.emitted = before ++ .agentModule q :: after →
        List.Forall₂ (Imported before (q.render o.profile)) q.definition.called q.links := by
  obtain ⟨t, hgives, rfl⟩ := result_run_eq_ok.mp h
  obtain ⟨root, hcompiled, -⟩ := compiled_compileRoot hgives
  have hdefinitions := hcompiled.definitions
  obtain ⟨init, hinit, -⟩ := hcompiled.exists_init
  refine ⟨t, rfl, hdefinitions, fun n hn => ?_, ⟨init, root, hinit, hcompiled.definition_eq⟩, ?_⟩
  · rw [← hn.length_postorder, ← hdefinitions, List.length_map]
  · exact fun before q after heq => hcompiled.imported heq

/-- Three agents, of which each calls the next one. -/
def threeInARow : Definition :=
  .node (supervisor "Lead") [({ name := "helper" }, .node (supervisor "Nora")
    [({ name := "helper" }, .node (supervisor "Olaf") [])])]

theorem modules_in_order_threeInARow :
    ∃ out t, (run {} threeInARow).result = .ok out ∧
      out.files = t.emitted.map (Emission.file .standard) ++ extraFiles {} t ∧
      (plans t.emitted).map (·.definition) = threeInARow.postorder ∧ (plans t.emitted).length = 3 := by
  have hends : (run {} threeInARow).result.isOk := by decide +kernel
  have hchain : threeInARow.Chain 2 := .call rfl (.call rfl (.last rfl))
  cases hrun : (run {} threeInARow).result with
  | ok out =>
      obtain ⟨t, hfiles, hdefinitions, hlength, -, -⟩ := modules_in_order hrun
      exact ⟨out, t, rfl, hfiles, hdefinitions, hlength 2 hchain⟩
  | error e =>
      rw [hrun] at hends
      cases hends

end Compilation

end AgentCompiler
