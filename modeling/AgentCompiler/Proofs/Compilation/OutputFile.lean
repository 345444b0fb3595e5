import AgentCompiler.Proofs.Compilation.Coordinator
import AgentCompiler.Proofs.Compilation.Order
import AgentCompiler.Proofs.Files.Disk

/-!
# The paths of the files of a run

All that a run writes stands directly in the output directory, under names that mean nothing to a path.
A file that is written for an agent never has the path of one that is written besides.
-/

namespace AgentCompiler

namespace Name

theorem isKeyChar_append {m n : String} (hm : ∀ c ∈ m.toList, isKeyChar c)
    (hn : ∀ c ∈ n.toList, isKeyChar c) : ∀ c ∈ (m ++ n).toList, isKeyChar c := by
  intro c hc
  rw [String.toList_append] at hc
  exact (List.mem_append.mp hc).elim (hm c) (hn c)

theorem isKeyChar_snake (s : String) : ∀ c ∈ (snake s).toList, isKeyChar c :=
  (joined_snake s).1.chars

/-- A cut name is made of the characters of names. -/
theorem isKeyChar_bound {name : String} (h : ∀ c ∈ name.toList, isKeyChar c) (max : Nat) :
    ∀ c ∈ (bound name max).toList, isKeyChar c := by
  unfold bound
  split
  · exact h
  · exact isKeyChar_of_mem_prune h

end Name

namespace Compilation

open Files Name

variable {d : Definition} {o : Options} {t : State}

/-- A name with the ending of a module is plain. -/
theorem isPlainName_py {name : String} (h : ∀ c ∈ name.toList, isKeyChar c) :
    IsPlainName (name ++ ".py") := by
  have hlast {other : String} (hother : other.toList.getLast? ≠ some 'y') : name ++ ".py" ≠ other := by
    rintro rfl
    exact hother (by simp)
  refine ⟨fun hslash => ?_, hlast (by decide), hlast (by decide), hlast (by decide)⟩
  rw [String.toList_append] at hslash
  rcases List.mem_append.mp hslash with hslash | hslash
  · exact absurd (h _ hslash) (by decide)
  · exact absurd hslash (by decide)

/-- The name of an agent's dispatch function is made of the characters of names. -/
theorem isKeyChar_dispatch (a : Agent) (rs : List Gateway.Route) :
    ∀ c ∈ (Gateway.Dispatch.ofAgent a rs).name.toList, isKeyChar c := by
  have hending : ∀ c ∈ ("_gateway_proxy" : String).toList, isKeyChar c :=
    List.all_eq_true.mp (by decide)
  rw [Gateway.Dispatch.ofAgent]
  dsimp only
  exact isKeyChar_bound (isKeyChar_append (isKeyChar_snake a.name) hending) maxLength

/-- A dispatch function that is emitted is that of an agent. -/
theorem Compiled.dispatch_eq {s : Scope} {top : Bool} {es : List Emission} {p : ModulePlan}
    {f : Gateway.Dispatch} (h : Compiled s top d es p) (hf : .dispatch f ∈ es) :
    ∃ a rs, f = .ofAgent a rs := by
  obtain ⟨q, hplanned⟩ := h.planned_dispatch hf
  obtain ⟨groups, registry, -, -, hfunction⟩ := hplanned.tools
  obtain ⟨plan, hplan, rfl⟩ := Option.map_eq_some_iff.mp hfunction.symm
  obtain ⟨-, rfl⟩ := plan_of_some hplan
  exact ⟨_, _, rfl⟩

/-- The name of a module is made of the characters of names. -/
theorem isKeyChar_moduleName (h : Gives (compileRoot o d) {} () t) {q : ModulePlan}
    (hq : .agentModule q ∈ t.emitted) : ∀ c ∈ q.name.toList, isKeyChar c := by
  have hplatform : ∀ c ∈ o.profile.platform.toList, isKeyChar c := by
    cases o.profile <;> exact List.all_eq_true.mp (by decide)
  obtain ⟨root, hcompiled, hroot⟩ := compiled_compileRoot h
  rcases hcompiled.eq_or_below hq with rfl | hbelow
  · rw [hroot]
    exact isKeyChar_append (isKeyChar_append hplatform (List.all_eq_true.mp (by decide)))
      (isKeyChar_snake _)
  · obtain ⟨delegation, n, hname⟩ := hbelow.name
    rw [hname]
    refine isKeyChar_of_mem_numbered ?_ n
    exact isKeyChar_append (isKeyChar_append hplatform (List.all_eq_true.mp (by decide)))
      (isKeyChar_snake _)

/-- What is written for an agent has the ending of a module behind a name. -/
theorem exists_path_py (h : Gives (compileRoot o d) {} () t) {e : Emission} (he : e ∈ t.emitted) :
    ∃ name, (e.file o.profile).path = name ++ ".py" ∧ ∀ c ∈ name.toList, isKeyChar c := by
  cases e with
  | dispatch f =>
      obtain ⟨root, hcompiled, -⟩ := compiled_compileRoot h
      obtain ⟨a, rs, rfl⟩ := hcompiled.dispatch_eq he
      exact ⟨_, rfl, isKeyChar_dispatch a rs⟩
  | agentModule q => exact ⟨q.name, rfl, isKeyChar_moduleName h he⟩

/-- The paths of the files that are written besides. -/
theorem path_extraFiles {f : OutputFile} (hf : f ∈ extraFiles o t) :
    f.path ∈ [environmentFile, Profile.requirementsFile, Memory.managerFile, Provisioning.planFile] := by
  rw [extraFiles, List.mem_append, List.mem_append] at hf
  rcases hf with (hf | hf) | hf
  · rcases List.mem_pair.mp hf with rfl | rfl <;> simp
  · split at hf
    · rw [List.mem_singleton.mp hf]
      simp
    · cases hf
  · split at hf
    · rw [List.mem_singleton.mp hf]
      simp
    · cases hf

/-- All files of a run have plain names. -/
theorem isPlainName_files {out : Output} (h : (run o d).result = .ok out) :
    ∀ f ∈ out.files, IsPlainName f.path := by
  obtain ⟨t, hgives, rfl⟩ := result_run_eq_ok.mp h
  intro f hf
  rcases List.mem_append.mp hf with hf | hf
  · obtain ⟨e, he, rfl⟩ := List.mem_map.mp hf
    obtain ⟨name, hpath, hname⟩ := exists_path_py hgives he
    rw [hpath]
    exact isPlainName_py hname
  · have hplain : ∀ path ∈ [environmentFile, Profile.requirementsFile, Memory.managerFile,
        Provisioning.planFile], '/' ∉ path.toList ∧ path ≠ "" ∧ path ≠ "." ∧ path ≠ ".." := by
      decide
    obtain ⟨hslash, hdots⟩ := hplain _ (path_extraFiles hf)
    exact ⟨hslash, hdots⟩

/-- No file of a run has a dash in its name. -/
theorem dash_not_mem_files {out : Output} (h : (run o d).result = .ok out) :
    ∀ f ∈ out.files, '-' ∉ f.path.toList := by
  obtain ⟨t, hgives, rfl⟩ := result_run_eq_ok.mp h
  intro f hf
  rcases List.mem_append.mp hf with hf | hf
  · obtain ⟨e, he, rfl⟩ := List.mem_map.mp hf
    obtain ⟨name, hpath, hname⟩ := exists_path_py hgives he
    rw [hpath, String.toList_append, List.mem_append]
    rintro (hdash | hdash)
    · exact absurd (hname _ hdash) (by decide)
    · exact absurd hdash (by decide)
  · have hdashless : ∀ path ∈ [environmentFile, Profile.requirementsFile, Memory.managerFile,
        Provisioning.planFile], '-' ∉ path.toList := by
      decide
    exact hdashless _ (path_extraFiles hf)

/-- A file that is written for an agent has not the path of one that is written besides. -/
theorem path_ne_extraFiles (h : Gives (compileRoot o d) {} () t) {e : Emission} (he : e ∈ t.emitted)
    {f : OutputFile} (hf : f ∈ extraFiles o t) : f.path ≠ (e.file o.profile).path := by
  intro heq
  have hmanager := file_ne_managerFile h he
  obtain ⟨name, hpath, -⟩ := exists_path_py h he
  have hending : ∀ path ∈ [environmentFile, Profile.requirementsFile, Provisioning.planFile],
      path.toList.getLast? ≠ some 'y' := by
    decide
  have hlast : f.path.toList.getLast? = some 'y' := by
    rw [heq, hpath]
    simp
  have hmem := path_extraFiles hf
  simp only [List.mem_cons, List.not_mem_nil, or_false] at hmem
  rcases hmem with hmem | hmem | hmem | hmem
  · exact hending _ (by simp [hmem]) hlast
  · exact hending _ (by simp [hmem]) hlast
  · exact hmanager (heq.symm.trans hmem)
  · exact hending _ (by simp [hmem]) hlast

end Compilation

end AgentCompiler
