import AgentCompiler.Proofs.Command.Writing
import AgentCompiler.Proofs.Compilation.OutputFile

/-!
# What a failed run of the command leaves on the disk

Until the output is written the command reads files, makes directories and opens the file of its log, when
it keeps one. So a run that fails before leaves all other files as they are. The output itself is written file
after file: when one of them cannot be written, those in front of it have been.
-/

namespace AgentCompiler.Command

open Files OutputFile

variable {α β ε : Type} {d d₁ d' : Disk} {day : Day} {spared : Option String}

/-- An action goes through or fails, from one disk to another. -/
def Ends (x : ExceptT ε (StateM Disk) α) (d : Disk) (r : Except ε α) (d' : Disk) : Prop :=
  x.run.run d = (r, d')

/-- A sequence goes on from the disk that its first part leaves. -/
theorem run_bind (x : ExceptT ε (StateM Disk) α) (f : α → ExceptT ε (StateM Disk) β) (d : Disk) :
    (x >>= f).run.run d =
      match x.run.run d with
      | (.ok a, d') => (f a).run.run d'
      | (.error e, d') => (.error e, d') := by
  show (ExceptT.bindCont f (x.run.run d).1) (x.run.run d).2 = _
  cases hrun : x.run.run d with
  | mk result d' => cases result <;> rfl

theorem run_lift_bind (x : StateM Disk α) (f : α → ExceptT ε (StateM Disk) β) (d : Disk) :
    ((liftM x : ExceptT ε (StateM Disk) α) >>= f).run.run d =
      (f (x.run d).1).run.run (x.run d).2 := rfl

theorem run_adapt {ε' : Type} (g : ε → ε') (x : ExceptT ε (StateM Disk) α) (d : Disk) :
    (ExceptT.adapt g x).run.run d = ((x.run.run d).1.mapError g, (x.run.run d).2) := rfl

theorem run_openLog (directory log : String) (d : Disk) :
    (((Disk.hostOn day).openLog directory log).run d).2 =
      (d.open? (Path.join directory (day.fileName log))).getD d := by
  unfold Disk.hostOn
  dsimp only
  rw [StateT.run_bind, StateT.run_get, pure_bind]
  cases d.open? (Path.join directory (day.fileName log)) with
  | none => rfl
  | some d' => rfl

/-! ## Actions that change no file -/

/-- An action changes no file but one that is spared and takes no directory away, and it fails with certain
faults only. -/
structure Harmless (spared : Option String) (p : ε → Prop) (x : ExceptT ε (StateM Disk) α) : Prop where
  furnished : ∀ d r d', Ends x d r d' → d.Furnished spared d'
  fails : ∀ d e d', Ends x d (.error e) d' → p e

namespace Harmless

variable {p : ε → Prop} {x : ExceptT ε (StateM Disk) α} {f : α → ExceptT ε (StateM Disk) β}

theorem pure (a : α) : Harmless spared p (Pure.pure a) := by
  constructor
  · intro d r d' h
    cases h
    exact .refl _
  · intro d e d' h
    cases h

theorem throw {e : ε} (h : p e) : Harmless spared p (MonadExcept.throw e : ExceptT ε (StateM Disk) α) := by
  constructor
  · intro d r d' hends
    cases hends
    exact .refl _
  · intro d e' d' hends
    cases hends
    exact h

theorem bind (hx : Harmless spared p x) (hf : ∀ a, Harmless spared p (f a)) :
    Harmless spared p (x >>= f) := by
  constructor
  · intro d r d' h
    rw [Ends, run_bind] at h
    split at h
    · next a d₁ hfirst => exact (hx.furnished d _ d₁ hfirst).trans ((hf a).furnished d₁ r d' h)
    · next e d₁ hfirst =>
        cases h
        exact hx.furnished d _ _ hfirst
  · intro d e d' h
    rw [Ends, run_bind] at h
    split at h
    · next a d₁ hfirst => exact (hf a).fails d₁ e d' h
    · next e d₁ hfirst =>
        cases h
        exact hx.fails d _ _ hfirst

/-- An action on the disk itself does not fail. -/
theorem lift {x : StateM Disk α} (h : ∀ d : Disk, d.Furnished spared (x.run d).2) :
    Harmless spared p (liftM x : ExceptT ε (StateM Disk) α) := by
  constructor
  · intro d r d' hends
    cases hends
    exact h d
  · intro d e d' hends
    cases hends

theorem isThere (path : String) : Harmless spared p (liftM ((Disk.hostOn day).isThere path)) :=
  lift fun d => .refl d

theorem read (path : String) : Harmless spared p (liftM ((Disk.hostOn day).read path)) :=
  lift fun d => .refl d

theorem makeDirectory (path : String) : Harmless spared p (liftM ((Disk.hostOn day).makeDirectory path)) :=
  lift fun d => .makeDirectory d path

theorem openLog (directory log : String) :
    Harmless (some (Path.join directory (day.fileName log))) p
      (liftM ((Disk.hostOn day).openLog directory log)) := by
  refine lift fun d => ?_
  rw [run_openLog]
  cases hopen : d.open? (Path.join directory (day.fileName log)) with
  | none => exact .refl d
  | some d' => exact .of_open? hopen

theorem liftExcept {x : Except ε α} (h : ∀ e, x = .error e → p e) :
    Harmless spared p (liftExcept x : ExceptT ε (StateM Disk) α) := by
  cases x with
  | ok a => exact pure a
  | error e => exact throw (h e rfl)

theorem adapt {ε' : Type} {q : ε' → Prop} {g : ε → ε'} (hx : Harmless spared p x)
    (hq : ∀ e, p e → q (g e)) : Harmless spared q (ExceptT.adapt g x) := by
  constructor
  · intro d r d' h
    rw [Ends, run_adapt] at h
    cases h
    exact hx.furnished d _ _ rfl
  · intro d e d' h
    rw [Ends, run_adapt] at h
    cases hresult : (x.run.run d).1 with
    | ok a =>
        rw [hresult] at h
        cases h
    | error e' =>
        rw [hresult] at h
        cases h
        exact hq e' (hx.fails d e' _ (Prod.ext hresult rfl))

end Harmless

/-! ## The parts of a run -/

/-- A fault that ends a run before any of the output is written. -/
def Fault.IsEarly (fault : Fault) : Prop := ∀ directory, fault ≠ .unwritten directory

/-- The path of the file of the command's log. -/
def logPath (day : Day) (directory : String) : String := Path.join directory (day.fileName logName)

/-- Of all files only that of the log can come in. -/
theorem harmless_openLog (directory? : Option String) :
    Harmless (directory?.map (logPath day)) Fault.IsEarly (openLog (Disk.hostOn day) directory?) := by
  unfold openLog
  split
  · exact .pure _
  refine .bind (.makeDirectory _) fun made => ?_
  split
  · refine .bind (.openLog _ _) fun opened => ?_
    split
    · exact .pure _
    · exact .throw fun _ => Fault.noConfusion
  · exact .pure _

theorem harmless_loadCatalog (e : Environment) (path : Option String) :
    Harmless spared Fault.IsEarly (loadCatalog (Disk.hostOn day) e path) := by
  unfold loadCatalog
  split
  · exact .pure _
  · refine .bind (.read _) fun text => ?_
    split
    · exact .pure _
    · exact .throw fun _ => Fault.noConfusion

theorem harmless_loadFixtures (e : Environment) (path : Option String) :
    Harmless spared Fault.IsEarly (loadFixtures (Disk.hostOn day) e path) := by
  unfold loadFixtures
  split
  · exact .pure _
  · refine .bind (.read _) fun text => ?_
    split
    · exact .pure _
    · exact .throw fun _ => Fault.noConfusion

theorem harmless_loadDefinition (path : String) :
    Harmless spared Fault.IsEarly (loadDefinition (Disk.hostOn day) path) := by
  refine .bind (.read _) fun text => ?_
  split
  · exact .pure _
  · exact .throw fun _ => Fault.noConfusion

theorem harmless_loadSettings (own : String) :
    Harmless spared Fault.IsEarly (ExceptT.adapt .badSettings (UserSettings.load (Disk.hostOn day) own)) := by
  have hload : Harmless spared (fun _ => True) (UserSettings.load (Disk.hostOn day) own) := by
    refine .bind (.isThere _) fun there => ?_
    split
    · exact .pure _
    refine .bind (.read _) fun text => ?_
    split
    · exact .throw trivial
    split
    · exact .pure _
    · exact .throw trivial
  exact hload.adapt fun _ _ _ => Fault.noConfusion

/-- A value that is not found is missed before anything is written. -/
def FailsEarly (x : Except Fault α) : Prop := ∀ fault, x = .error fault → fault.IsEarly

namespace FailsEarly

theorem pure (a : α) : FailsEarly (Pure.pure a) := by
  intro fault h
  cases h

theorem throw {fault : Fault} (h : fault.IsEarly) :
    FailsEarly (MonadExcept.throw fault : Except Fault α) := by
  intro fault' heq
  cases heq
  exact h

theorem bind {x : Except Fault α} {f : α → Except Fault β} (hx : FailsEarly x)
    (hf : ∀ a, FailsEarly (f a)) : FailsEarly (x >>= f) := by
  intro fault h
  cases x with
  | error fault' =>
      cases h
      exact hx _ rfl
  | ok a => exact hf a fault h

theorem mapError {x : Except ε α} {g : ε → Fault} (h : ∀ e, (g e).IsEarly) :
    FailsEarly (x.mapError g) := by
  intro fault heq
  cases x with
  | error e =>
      cases heq
      exact h e
  | ok a => cases heq

end FailsEarly

/-- What the command is asked to do is found before anything is written. -/
theorem failsEarly_task (e : Environment) (arguments : List String) (s : TaskSettings) :
    FailsEarly (task e arguments s) := by
  have hgateway (t : Option Bool → Task) : FailsEarly (do
      let gateway ← (readFlag (e.value "AGENTPORT_GATEWAY")).mapError .badGatewayFlag
      return t gateway) := .bind (.mapError fun _ _ => Fault.noConfusion) fun _ => .pure _
  unfold task
  generalize (arguments.head? <|> pick (e.value "AGENTPORT_DEFINITION") s.definition) = definition?
  generalize pick (e.value "AGENTPORT_PROFILE") s.profile = profile?
  have hmissing : FailsEarly (throw .noDefinition : Except Fault String) :=
    .throw fun _ => Fault.noConfusion
  have hnamed (name : String) : FailsEarly ((Profile.ofName name).mapError .unknownProfile) :=
    .mapError fun _ _ => Fault.noConfusion
  cases definition? with
  | some path =>
      cases profile? with
      | some name => exact .bind (.pure _) fun _ => .bind (hnamed name) fun _ => hgateway _
      | none => exact .bind (.pure _) fun _ => .bind (.pure _) fun _ => hgateway _
  | none =>
      cases profile? with
      | some name => exact .bind hmissing fun _ => .bind (hnamed name) fun _ => hgateway _
      | none => exact .bind hmissing fun _ => .bind (.pure _) fun _ => hgateway _

/-! ## Runs -/

/-- The path of the file of the log, when the command keeps one. -/
def logFile? (day : Day) (e : Environment) (d : Disk) : Option String :=
  let own := e.ownDirectory (e.value "AGENTPORT_HOME")
  match ((UserSettings.load (Disk.hostOn day) own).run.run d).1 with
  | .error _ => none
  | .ok settings => (logDirectory? e own (settings.getD {}).logging).map (logPath day)

theorem exists_of_mem_logFile? {e : Environment} {path : String} (h : path ∈ logFile? day e d) :
    ∃ directory, path = logPath day directory := by
  unfold logFile? at h
  dsimp only at h
  split at h
  · cases h
  · obtain ⟨directory, -, rfl⟩ := Option.map_eq_some_iff.mp h
    exact ⟨directory, rfl⟩

/-- The log is asked for by the settings that are loaded. -/
theorem logFile?_of_load {e : Environment} {settings : Option UserSettings}
    (h : Ends (ExceptT.adapt Fault.badSettings (UserSettings.load (Disk.hostOn day)
      (e.ownDirectory (e.value "AGENTPORT_HOME")))) d (.ok settings) d₁) :
    logFile? day e d = (logDirectory? e (e.ownDirectory (e.value "AGENTPORT_HOME"))
      (settings.getD {}).logging).map (logPath day) := by
  rw [Ends, run_adapt, Prod.mk.injEq] at h
  unfold logFile?
  dsimp only
  split
  · next fault hload =>
      rw [hload] at h
      cases h.1
  · next settings' hload =>
      rw [hload] at h
      cases h.1
      rfl

/-- How a run that fails leaves the disk, with the file of its log spared: it failed early, or it was cut off
in its output. -/
inductive Leaves (spared : Option String) (d d' : Disk) : Fault → Prop
  | early {fault : Fault} (furnished : d.Furnished spared d') (isEarly : fault.IsEarly) :
      Leaves spared d d' fault
  | cutOff {directory : String} {o : Compilation.Options} {definition : Definition} {output : Output}
      {d₀ d₁ : Disk} {done rest : List OutputFile}
      (result : (Compilation.run o definition).result = .ok output) (furnished : d.Furnished spared d₀)
      (cut : CutOff d₀ d₁ d' directory output.files done rest) :
      Leaves spared d d' (.unwritten directory)

variable {fault : Fault} {e : Environment} {arguments : List String}

theorem Leaves.after (h : d.Furnished spared d₁) (hleaves : Leaves spared d₁ d' fault) :
    Leaves spared d d' fault := by
  cases hleaves with
  | early furnished isEarly => exact .early (h.trans furnished) isEarly
  | cutOff result furnished cut => exact .cutOff result (h.trans furnished) cut

/-- A sequence that fails does so in its harmless first part, or goes on from there. -/
theorem Harmless.leaves_bind {x : ExceptT Fault (StateM Disk) α} {f : α → ExceptT Fault (StateM Disk) β}
    (hx : Harmless spared Fault.IsEarly x) (h : Ends (x >>= f) d (.error fault) d')
    (hf : ∀ a d₁, Ends x d (.ok a) d₁ → Ends (f a) d₁ (.error fault) d' → Leaves spared d₁ d' fault) :
    Leaves spared d d' fault := by
  rw [Ends, run_bind] at h
  split at h
  · next a d₁ hfirst => exact (hf a d₁ hfirst h).after (hx.furnished d _ d₁ hfirst)
  · next e d₁ hfirst =>
      cases h
      exact .early (hx.furnished d _ _ hfirst) (hx.fails d _ _ hfirst)

theorem writeOutput_hostOn (directory : String) (fs : List OutputFile) :
    writeOutput (Disk.hostOn day) directory fs = writeOutput Disk.host directory fs := by
  have hall : writeAll (Disk.hostOn day) directory fs = writeAll Disk.host directory fs := by
    induction fs with
    | nil => rfl
    | cons f fs ih =>
        rw [writeAll, writeAll, ih]
        rfl
  rw [writeOutput, writeOutput, hall]
  rfl

theorem leaves_perform {t : Task} (h : Ends (perform (Disk.hostOn day) e t) d (.error fault) d') :
    Leaves spared d d' fault := by
  unfold perform at h
  refine (harmless_loadCatalog e _).leaves_bind h fun catalog d₁ _ h => ?_
  refine (harmless_loadFixtures e _).leaves_bind h fun fixtures d₂ _ h => ?_
  refine (harmless_loadDefinition _).leaves_bind h fun definition d₃ _ h => ?_
  dsimp only at h
  split at h
  · cases h
    exact .early (.refl _) fun _ => Fault.noConfusion
  next output houtput =>
  rw [Ends, run_lift_bind, writeOutput_hostOn] at h
  cases hwrite : (writeOutput Disk.host t.outputDirectory output.files).run d₃ with
  | mk all d₄ =>
      rw [hwrite] at h
      cases all with
      | true => cases h
      | false =>
          cases h
          obtain ⟨d₁, done, rest, hcut⟩ := cutOff_writeOutput hwrite
          exact .cutOff houtput (.refl _) hcut

theorem leaves_run (h : Ends (run (Disk.hostOn day) e arguments) d (.error fault) d') :
    Leaves (logFile? day e d) d d' fault := by
  unfold run at h
  refine (harmless_loadSettings _).leaves_bind h fun settings d₁ hload h => ?_
  dsimp only at h
  rw [logFile?_of_load hload]
  refine (harmless_openLog _).leaves_bind h fun _ d₂ _ h => ?_
  exact (Harmless.liftExcept (failsEarly_task e arguments _)).leaves_bind h fun _ _ _ => leaves_perform

/-- The place of the log's file is not one to which an output file is written. -/
theorem resolve_ne_of_not_misses {o : Compilation.Options} {definition : Definition} {output : Output}
    {directory : String} {p : Place} (result : (Compilation.run o definition).result = .ok output)
    (hp : ¬d'.Misses (logFile? day e d) p) {f : OutputFile} (hf : f ∈ output.files) :
    d₁.resolve (Path.join directory f.path) ≠ .ok p := by
  intro hresolve
  refine hp fun path hpath hlog => ?_
  obtain ⟨logDirectory, rfl⟩ := exists_of_mem_logFile? hpath
  have hname : IsPlainName (day.fileName logName) := day.isPlainName_fileName (by decide)
  have hlast := Disk.getLast?_of_resolve_join hname hlog
  rw [Disk.getLast?_of_resolve_join (Compilation.isPlainName_files result f hf) hresolve] at hlast
  have hdash := day.dash_mem_fileName logName
  rw [← Option.some.inj hlast] at hdash
  exact Compilation.dash_not_mem_files result f hf hdash

/-- But for the file of its log, a run that fails before its output is written leaves all files as they are. One
that fails over its output has written the files in front of the first that cannot be written, and no others:
the disk has the same files as before exactly when those had been there already. -/
theorem failedRun_files (h : (run (Disk.hostOn day) e arguments).run.run d = (.error fault, d')) :
    (fault.IsEarly → ∀ p, d'.Misses (logFile? day e d) p → d'.file? p = d.file? p) ∧
      ∀ directory, fault = .unwritten directory →
        ∃ o definition output d₀ d₁ done rest, (Compilation.run o definition).result = .ok output ∧
          d.Furnished (logFile? day e d) d₀ ∧ CutOff d₀ d₁ d' directory output.files done rest ∧
          (∀ p, d'.Misses (logFile? day e d) p →
            (∀ f ∈ done, d₁.resolve (Path.join directory f.path) ≠ .ok p) → d'.file? p = d.file? p) ∧
          ((∀ p, d'.Misses (logFile? day e d) p → d'.file? p = d.file? p) ↔
            ∀ f ∈ lasting done, d₁.read (Path.join directory f.path) = .ok f.text) := by
  cases leaves_run h with
  | early furnished isEarly =>
      refine ⟨fun _ => furnished.files, ?_⟩
      rintro directory rfl
      exact absurd rfl (isEarly directory)
  | @cutOff directory o definition output d₀ d₁ done rest result furnished cut =>
      refine ⟨fun hearly => absurd rfl (hearly directory), ?_⟩
      rintro _ ⟨⟩
      have hmem : ∀ f ∈ done, f ∈ output.files := fun f hf => cut.split ▸ List.mem_append_left rest hf
      have hplain : ∀ f ∈ done, IsPlainName f.path := fun f hf =>
        Compilation.isPlainName_files result f (hmem f hf)
      have hfiles (p : Place) (hp : d'.Misses (logFile? day e d) p) : d₁.file? p = d.file? p :=
        (furnished.trans cut.furnished.of_none).files p fun path hpath hresolve =>
          hp path hpath ((Disk.SameRooms.of_writeFiles? cut.written).resolve_eq_ok.mpr hresolve)
      refine ⟨o, definition, output, d₀, d₁, done, rest, result, furnished, cut, fun p hp hdone => ?_, ?_⟩
      · rw [Disk.file?_of_writeFiles? cut.written hdone, hfiles p hp]
      rw [← Disk.files_writeFiles?_iff hplain cut.written]
      constructor
      · intro hsame p
        by_cases hp : d'.Misses (logFile? day e d) p
        · rw [hsame p hp, hfiles p hp]
        · -- No output file has the place of the log's file.
          exact Disk.file?_of_writeFiles? cut.written fun f hf =>
            resolve_ne_of_not_misses result hp (hmem f hf)
      · intro hsame p hp
        rw [hsame p, hfiles p hp]

/-- A disk with a definition, on which the name of one file of the output is taken by a directory. -/
def blockedDisk : Disk where
  entries := [
    (["agent.json"], .file (some r#"{"name": "Clerk", "model_id": "nova",
      "prompts": [{"prompt_type": "ORCHESTRATION", "base_template": "Answer."}]}"#)),
    (["agentport_output"], .directory), (["agentport_output", "requirements.txt"], .directory)]

/-- An environment in which a log is kept in the output directory. -/
def loggedEnvironment : Environment where
  bindings := [("LOG_TO_FILE", "true"), ("LOG_DIR", "agentport_output")]

/-- The directory that could not be written to. -/
def unwritten? : Except Fault α → Option String
  | .error (.unwritten directory) => some directory
  | _ => none

theorem eq_of_unwritten? {r : Except Fault α} {directory : String}
    (h : unwritten? r = some directory) : r = .error (.unwritten directory) := by
  unfold unwritten? at h
  split at h
  · cases h
    rfl
  · cases h

/-- The run on the disk is cut off behind two files. -/
theorem run_blockedDisk :
    ∃ d', (run (Disk.hostOn ⟨2026, 7, 31⟩) ⟨[], "."⟩ ["agent.json"]).run.run blockedDisk =
        (.error (.unwritten "agentport_output"), d') ∧
      (d'.file? ["agentport_output", "langchain_clerk.py"]).isSome ∧
      d'.file? ["agentport_output", ".env"] = some (some "") := by
  have hend : (fun r : Except Fault (List String) × Disk =>
      unwritten? r.1 = some "agentport_output" ∧
        (r.2.file? ["agentport_output", "langchain_clerk.py"]).isSome ∧
        r.2.file? ["agentport_output", ".env"] = some (some ""))
      ((run (Disk.hostOn ⟨2026, 7, 31⟩) ⟨[], "."⟩ ["agent.json"]).run.run blockedDisk) := by
    decide +kernel
  cases hrun : (run (Disk.hostOn ⟨2026, 7, 31⟩) ⟨[], "."⟩ ["agent.json"]).run.run blockedDisk with
  | mk r d' =>
      rw [hrun] at hend
      exact ⟨d', congrArg (·, d') (eq_of_unwritten? hend.1), hend.2⟩

/-- A run without a definition leaves all files as they are but that of its log, which comes in; and one that is
cut off has written two files. -/
theorem failedRun_files_blockedDisk :
    (∃ d', (run (Disk.hostOn ⟨2026, 7, 31⟩) loggedEnvironment []).run.run blockedDisk =
          (.error .noDefinition, d') ∧
        d'.file? ["agentport_output", "agentport.log.2026-07-31"] = some (some "") ∧
        ∀ p ≠ ["agentport_output", "agentport.log.2026-07-31"], d'.file? p = blockedDisk.file? p) ∧
      ∃ d' o definition output d₀ d₁ done rest,
        (run (Disk.hostOn ⟨2026, 7, 31⟩) ⟨[], "."⟩ ["agent.json"]).run.run blockedDisk =
            (.error (.unwritten "agentport_output"), d') ∧
          (Compilation.run o definition).result = .ok output ∧ blockedDisk.Furnished none d₀ ∧
          CutOff d₀ d₁ d' "agentport_output" output.files done rest ∧
          ((∀ p, d'.file? p = blockedDisk.file? p) ↔
            ∀ f ∈ lasting done, d₁.read (Path.join "agentport_output" f.path) = .ok f.text) := by
  constructor
  · have hrun : (run (Disk.hostOn ⟨2026, 7, 31⟩) loggedEnvironment []).run.run blockedDisk =
        (.error .noDefinition,
          blockedDisk.put ["agentport_output", "agentport.log.2026-07-31"] (.file (some ""))) := by
      rfl
    refine ⟨_, hrun, rfl, fun p hp => (failedRun_files hrun).1 (fun _ => Fault.noConfusion) p ?_⟩
    have hlog : logFile? ⟨2026, 7, 31⟩ loggedEnvironment blockedDisk =
        some "agentport_output/agentport.log.2026-07-31" := by
      rfl
    intro path hpath hresolve
    obtain rfl := Option.some.inj (hlog.symm.trans hpath)
    exact hp (Except.ok.inj hresolve).symm
  · obtain ⟨d', hrun, -⟩ := run_blockedDisk
    obtain ⟨o, definition, output, d₀, d₁, done, rest, hresult, hfurnished, hcut, -, hiff⟩ :=
      (failedRun_files hrun).2 _ rfl
    have hlog : logFile? ⟨2026, 7, 31⟩ ⟨[], "."⟩ blockedDisk = none := rfl
    rw [hlog] at hfurnished hiff
    refine ⟨d', o, definition, output, d₀, d₁, done, rest, hrun, hresult, hfurnished, hcut, ?_⟩
    rw [← hiff]
    exact ⟨fun h p _ => h p, fun h p => h p (d'.misses_none p)⟩

/-- The files in front of the directory are written although the run fails. -/
theorem failedRun_changes_blockedDisk :
    ∃ d', (run (Disk.hostOn ⟨2026, 7, 31⟩) ⟨[], "."⟩ ["agent.json"]).run.run blockedDisk =
        (.error (.unwritten "agentport_output"), d') ∧
      blockedDisk.file? ["agentport_output", "langchain_clerk.py"] = none ∧
      (d'.file? ["agentport_output", "langchain_clerk.py"]).isSome ∧
      blockedDisk.file? ["agentport_output", ".env"] = none ∧
      d'.file? ["agentport_output", ".env"] = some (some "") := by
  obtain ⟨d', hrun, hmodule, hvariables⟩ := run_blockedDisk
  exact ⟨d', hrun, by decide, hmodule, by decide, hvariables⟩

end AgentCompiler.Command
