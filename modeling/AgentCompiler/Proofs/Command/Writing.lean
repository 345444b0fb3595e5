import AgentCompiler.Command.Run
import AgentCompiler.Proofs.Files.Disk

/-!
# Files that are written one after the other

Files are written below a directory until one cannot be written. Those before it stay, and of several
files with one path the last one stays.
-/

namespace AgentCompiler

namespace OutputFile

/-- The files that no later one of the same path takes the place of. -/
def lasting : List OutputFile → List OutputFile
  | [] => []
  | f :: fs => if f.path ∈ fs.map (·.path) then lasting fs else f :: lasting fs

variable {f : OutputFile} {fs : List OutputFile}

theorem mem_of_mem_lasting (h : f ∈ lasting fs) : f ∈ fs := by
  induction fs with
  | nil => exact h
  | cons g gs ih =>
      rw [lasting] at h
      split at h
      · exact List.mem_cons_of_mem g (ih h)
      · exact List.mem_cons.mpr ((List.mem_cons.mp h).imp_right ih)

theorem exists_mem_lasting (h : f ∈ fs) : ∃ g ∈ lasting fs, g.path = f.path := by
  induction fs generalizing f with
  | nil => cases h
  | cons g gs ih =>
      rw [lasting]
      by_cases hlater : g.path ∈ gs.map (·.path)
      · rw [if_pos hlater]
        rcases List.mem_cons.mp h with rfl | h
        · obtain ⟨g', hg', hpath⟩ := List.mem_map.mp hlater
          rw [← hpath]
          exact ih hg'
        · exact ih h
      · rw [if_neg hlater]
        rcases List.mem_cons.mp h with rfl | h
        · exact ⟨_, List.mem_cons_self, rfl⟩
        · obtain ⟨g', hg', hpath⟩ := ih h
          exact ⟨g', List.mem_cons_of_mem g hg', hpath⟩

/-- A file lasts when no other one has its path. -/
theorem mem_lasting (h : f ∈ fs) (halone : ∀ g ∈ fs, g.path = f.path → g = f) : f ∈ lasting fs := by
  obtain ⟨g, hg, hpath⟩ := exists_mem_lasting h
  rw [← halone g (mem_of_mem_lasting hg) hpath]
  exact hg

end OutputFile

open OutputFile

namespace Files.Disk

variable {d d' : Disk} {directory : String} {fs : List OutputFile} {f : OutputFile} {p : Place}

/-- The disk after files were written below a directory, in order; none when one of them cannot be
written. -/
def writeFiles? (d : Disk) (directory : String) : List OutputFile → Option Disk
  | [] => some d
  | f :: fs => (d.write? (Path.join directory f.path) f.text).bind fun d => d.writeFiles? directory fs

theorem SameRooms.of_writeFiles? (h : d.writeFiles? directory fs = some d') : SameRooms d d' := by
  induction fs generalizing d with
  | nil =>
      cases h
      exact .refl _
  | cons f fs ih =>
      obtain ⟨d₁, hfirst, hrest⟩ := Option.bind_eq_some_iff.mp h
      exact (SameRooms.of_write? hfirst).trans (ih hrest)

/-- A file stays as it is when none of the paths leads to it. -/
theorem file?_of_writeFiles? (h : d.writeFiles? directory fs = some d')
    (hp : ∀ f ∈ fs, d.resolve (Path.join directory f.path) ≠ .ok p) : d'.file? p = d.file? p := by
  induction fs generalizing d with
  | nil =>
      cases h
      rfl
  | cons f fs ih =>
      obtain ⟨d₁, hfirst, hrest⟩ := Option.bind_eq_some_iff.mp h
      have hrooms := SameRooms.of_write? hfirst
      obtain ⟨q, hq, hkind, rfl⟩ := write?_eq_some.mp hfirst
      have hne : p ≠ q := by
        rintro rfl
        exact hp f List.mem_cons_self hq
      rw [ih hrest fun g hg => ?_, file?_put (ne_nil_of_kind? hkind), if_neg hne]
      exact mt hrooms.resolve_eq_ok.mp (hp g (List.mem_cons_of_mem f hg))

/-- What was written last at a path is there. -/
theorem read_of_writeFiles? (hplain : ∀ f ∈ fs, IsPlainName f.path)
    (h : d.writeFiles? directory fs = some d') (hf : f ∈ lasting fs) :
    d'.read (Path.join directory f.path) = .ok f.text := by
  induction fs generalizing d with
  | nil => cases hf
  | cons g gs ih =>
      have hplain' : ∀ g ∈ gs, IsPlainName g.path := fun g' hg' => hplain g' (List.mem_cons_of_mem g hg')
      obtain ⟨d₁, hfirst, hrest⟩ := Option.bind_eq_some_iff.mp h
      rw [lasting] at hf
      split at hf
      · exact ih hplain' hrest hf
      next hlast =>
      rcases List.mem_cons.mp hf with rfl | hf
      · have hrooms := SameRooms.of_write? hfirst
        have hrooms' := SameRooms.of_writeFiles? hrest
        obtain ⟨q, hq, hkind, rfl⟩ := write?_eq_some.mp hfirst
        refine read_eq_ok.mpr ⟨q, (hrooms.trans hrooms').resolve_eq_ok.mpr hq, ?_⟩
        rw [file?_of_writeFiles? hrest, file?_put (ne_nil_of_kind? hkind), if_pos rfl]
        · rfl
        -- Another path to the same place would be that of a later file.
        intro g hg hresolve
        have hpath := resolve_join_inj (hplain' g hg) (hplain f List.mem_cons_self)
          (hrooms.resolve_eq_ok.mp hresolve) hq
        exact hlast (List.mem_map.mpr ⟨g, hg, hpath⟩)
      · exact ih hplain' hrest hf

/-- Files that are written change no file exactly when the lasting ones were there before. -/
theorem files_writeFiles?_iff (hplain : ∀ f ∈ fs, IsPlainName f.path)
    (h : d.writeFiles? directory fs = some d') :
    (∀ p, d'.file? p = d.file? p) ↔
      ∀ f ∈ lasting fs, d.read (Path.join directory f.path) = .ok f.text := by
  have hrooms := SameRooms.of_writeFiles? h
  constructor
  · intro hsame f hf
    obtain ⟨p, hp, hfile⟩ := read_eq_ok.mp (read_of_writeFiles? hplain h hf)
    exact read_eq_ok.mpr ⟨p, hrooms.resolve_eq_ok.mp hp, (hsame p).symm.trans hfile⟩
  · intro hthere p
    by_cases hp : ∃ f ∈ fs, d.resolve (Path.join directory f.path) = .ok p
    · obtain ⟨f, hf, hresolve⟩ := hp
      obtain ⟨g, hg, hpath⟩ := exists_mem_lasting hf
      rw [← hpath] at hresolve
      obtain ⟨q, hq, hfile⟩ := read_eq_ok.mp (hthere g hg)
      obtain ⟨q', hq', hfile'⟩ := read_eq_ok.mp (read_of_writeFiles? hplain h hg)
      rw [hresolve] at hq
      rw [hrooms.resolve_eq_ok.mpr hresolve] at hq'
      cases hq
      cases hq'
      rw [hfile, hfile']
    · exact file?_of_writeFiles? h fun f hf hresolve => hp ⟨f, hf, hresolve⟩

end Files.Disk

namespace Command

open Files

variable {d d' : Disk} {directory : String} {fs : List OutputFile}

theorem run_write (path text : String) : (Disk.host.write path text).run d =
    match d.write? path text with
    | none => pure (false, d)
    | some d' => pure (true, d') := by
  show (match d.write? path text with
    | none => pure false
    | some d' => do
      set d'
      return true : StateM Disk Bool).run d = _
  split
  · rfl
  · rfl

/-- The files are written up to the first one that cannot be written. -/
theorem wrote_writeAll {all : Bool} (h : (writeAll Disk.host directory fs).run d = (all, d')) :
    ∃ done rest, fs = done ++ rest ∧ d.writeFiles? directory done = some d' ∧
      if all then rest = [] else ∃ f, rest.head? = some f ∧
        d'.write? (Path.join directory f.path) f.text = none := by
  induction fs generalizing d with
  | nil =>
      cases h
      exact ⟨[], [], rfl, rfl, rfl⟩
  | cons f fs ih =>
      have hstep : (writeAll Disk.host directory (f :: fs)).run d =
          match d.write? (Path.join directory f.path) f.text with
          | none => (false, d)
          | some d₁ => (writeAll Disk.host directory fs).run d₁ := by
        rw [writeAll, StateT.run_bind, run_write]
        split
        · rfl
        · rfl
      rw [hstep] at h
      split at h
      · next hfirst =>
          cases h
          exact ⟨[], f :: fs, rfl, rfl, f, rfl, hfirst⟩
      · next d₁ hfirst =>
          obtain ⟨done, rest, rfl, hdisk, hrest⟩ := ih h
          refine ⟨f :: done, rest, rfl, ?_, hrest⟩
          rw [Disk.writeFiles?, hfirst]
          exact hdisk

/-- The files in front of the first one that cannot be written, and those from it on. All are among the
latter when the directory cannot be made. -/
structure CutOff (d d₁ d' : Disk) (directory : String) (fs done rest : List OutputFile) : Prop where
  split : fs = done ++ rest
  furnished : d.Furnished none d₁
  written : d₁.writeFiles? directory done = some d'
  stopped : (d.makeDirectory directory).1 = false ∧ done = [] ∨
    ∃ f, rest.head? = some f ∧ d'.write? (Path.join directory f.path) f.text = none

theorem run_writeOutput : (writeOutput Disk.host directory fs).run d =
    if (d.makeDirectory directory).1 then
      (writeAll Disk.host directory fs).run (d.makeDirectory directory).2
    else pure (false, (d.makeDirectory directory).2) := by
  show (if (d.makeDirectory directory).1 then writeAll Disk.host directory fs else pure false :
    StateM Disk Bool).run (d.makeDirectory directory).2 = _
  split
  · rfl
  · rfl

/-- When not all of the output is written, what comes before the first failure is. -/
theorem cutOff_writeOutput (h : (writeOutput Disk.host directory fs).run d = (false, d')) :
    ∃ d₁ done rest, CutOff d d₁ d' directory fs done rest := by
  have hfurnished : d.Furnished none (d.makeDirectory directory).2 := .makeDirectory d directory
  rw [run_writeOutput] at h
  split at h
  · obtain ⟨done, rest, hsplit, hdisk, hrest⟩ := wrote_writeAll h
    exact ⟨_, done, rest, hsplit, hfurnished, hdisk, .inr hrest⟩
  · next hmade =>
      cases h
      exact ⟨_, [], fs, rfl, hfurnished, rfl, .inl ⟨Bool.eq_false_iff.mpr hmade, rfl⟩⟩

/-- When all of the output is written, the lasting files are there. -/
theorem read_writeOutput (hplain : ∀ f ∈ fs, IsPlainName f.path)
    (h : (writeOutput Disk.host directory fs).run d = (true, d')) {f : OutputFile}
    (hf : f ∈ lasting fs) : d'.read (Path.join directory f.path) = .ok f.text := by
  rw [run_writeOutput] at h
  split at h
  · obtain ⟨done, rest, rfl, hdisk, rfl⟩ := wrote_writeAll h
    rw [List.append_nil] at hplain hf
    exact Disk.read_of_writeFiles? hplain hdisk hf
  · cases h

end Command

end AgentCompiler
