import AgentCompiler.Proofs.Schema.Ending
import AgentCompiler.Proofs.Schema.Order
import AgentCompiler.Proofs.Typing.Signature

/-!
# What the tools of functions take

A tool of a function takes a record, which is declared under a class made from the name of the tool. The
registry keeps the first declaration of a class, so the record is the tool's own one only when neither a
tool before it nor the types of its own parameters have declared its class. `inputs_describe_iff` says
which declaration the input names, and when it describes the function.
-/

namespace AgentCompiler.Schema

/-! ## Records of parameters -/

/-- The mapping of what a parameter holds. -/
def parameterType (components : Members) (name : String) (p : Api.Parameter) : Mapping TypeExpr :=
  match p.schema, p.content.head? with
  | some schema, _ => mapField components schema (name ++ "_" ++ p.name)
  | none, some media => mapField components media.schema (name ++ "_" ++ p.name)
  | none, none => pure .text

/-- The record of parameters that have these types. -/
def parametersRecord (name : String) (ps : List Api.Parameter) (types : List TypeExpr) :
    Declaration :=
  .record (Name.pascal name) none (List.zipWith
    (fun p type => Field.ofProperty p.name type p.required (some p.description)) ps types)

theorem name_parametersRecord (name : String) (ps : List Api.Parameter) (types : List TypeExpr) :
    (parametersRecord name ps types).name = Name.pascal name := by
  unfold parametersRecord
  exact Declaration.name_record _ _ _

/-- A record of parameters has one field for each of them, in order. -/
theorem signature_parametersRecord {name : String} {ps : List Api.Parameter}
    {types : List TypeExpr} (h : types.length = ps.length) :
    (parametersRecord name ps types).signature = ps.map fun p => (p.name, p.required) := by
  rw [parametersRecord, Declaration.signature_record]
  exact Field.map_signature_zipWith h _ _ _

/-- Parameters are referred to by their class. A record for them is declared when that is new. -/
theorem mapParameters_apply (components : Members) {ps : List Api.Parameter} (name : String)
    (r : Registry) (hps : ps ≠ []) :
    mapParameters components ps name r =
      if r.contains (Name.pascal name) then some (some (.named (Name.pascal name)), r)
      else (ps.mapM (parameterType components name) r).map fun x =>
        (some (.named (Name.pascal name)), x.2.register (parametersRecord name ps x.1)) := by
  have hempty : ps.isEmpty = false := by simpa using hps
  have hfields := mapM_bind_pure (parameterType components name)
    (fun p type => Field.ofProperty p.name type p.required (some p.description)) ps r
  rw [mapParameters, if_neg (by rw [hempty]; exact Bool.false_ne_true), bind_apply, get_apply,
    Option.bind_some]
  split
  · rfl
  · have hsame : (fun p => do
          let type ← parameterType components name p
          pure (Field.ofProperty p.name type p.required (some p.description))) = _ :=
      funext fun p => show _ = (match p.schema, p.content.head? with
        | some schema, _ => do
          let type ← mapField components schema (name ++ "_" ++ p.name)
          pure (Field.ofProperty p.name type p.required (some p.description))
        | none, some media => do
          let type ← mapField components media.schema (name ++ "_" ++ p.name)
          pure (Field.ofProperty p.name type p.required (some p.description))
        | none, none => do
          let type ← pure TypeExpr.text
          pure (Field.ofProperty p.name type p.required (some p.description))) by
        unfold parameterType
        split <;> rfl
    rw [hsame] at hfields
    refine (congrArg (fun x => Option.bind x _) hfields).trans ?_
    rw [Option.bind_map, Option.map_eq_bind]
    refine congrArg (Option.bind _) (funext fun x => ?_)
    have hdeclare (d : Declaration) :
        (some <$> declare d) x.2 = some (some (.named d.name), x.2.register d) := rfl
    have hrecord := hdeclare (parametersRecord name ps x.1)
    rw [name_parametersRecord] at hrecord
    exact hrecord

/-- Parameters are referred to by their class. -/
theorem class_mapParameters {components : Members} {ps : List Api.Parameter} {name : String}
    {r r' : Registry} {type : Option TypeExpr} (hps : ps ≠ [])
    (h : mapParameters components ps name r = some (type, r')) :
    type = some (.named (Name.pascal name)) := by
  rw [mapParameters_apply components name r hps] at h
  split at h
  · cases h
    rfl
  · obtain ⟨x, -, hx⟩ := Option.map_eq_some_iff.mp h
    cases hx
    rfl

theorem sound_parameterType (components : Members) (name : String) (p : Api.Parameter)
    (r : Registry) : Sound r (parameterType components name p) Registry.Knows := by
  unfold parameterType
  split
  · exact sound_mapNode _ _ _ _ _ r
  · exact sound_mapNode _ _ _ _ _ r
  · exact Sound.pure_of_names_eq_nil rfl

/-- Without components every parameter has a type. -/
theorem ends_parameterType (name : String) (p : Api.Parameter) : Ends (parameterType [] name p) := by
  unfold parameterType
  split
  · exact ends_mapNode not_mergesForever_nil _ _ _ _ _
  · exact ends_mapNode not_mergesForever_nil _ _ _ _ _
  · exact .pure _

/-- Under the class of parameters the first declaration is found: one that is there when the parameters
themselves have types, and else their record. -/
theorem find?_mapParameters {ps : List Api.Parameter} {name : String} {r r' : Registry}
    {type : Option TypeExpr} (hps : ps ≠ []) (hr : r.Ordered)
    (h : mapParameters [] ps name r = some (type, r')) :
    ∃ types r₁, ps.mapM (parameterType [] name) r = some (types, r₁) ∧
      r'.find? (Name.pascal name) =
        some ((r₁.find? (Name.pascal name)).getD (parametersRecord name ps types)) := by
  obtain ⟨⟨types, r₁⟩, htypes⟩ :=
    Option.isSome_iff_exists.mp (Ends.mapM ps (fun p _ => ends_parameterType name p) r)
  have hsound : Sound r (ps.mapM (parameterType [] name)) fun r' types => ∀ t ∈ types, r'.Knows t :=
    Sound.mapM (R := Registry.Knows) (fun _ _ _ hwithin => hwithin.knows) ps
      fun p _ r' _ => sound_parameterType [] name p r'
  obtain ⟨hwithin, -⟩ := hsound hr types r₁ htypes
  refine ⟨types, r₁, htypes, ?_⟩
  rw [mapParameters_apply [] name r hps, htypes, Option.map_some] at h
  split at h
  · next hold =>
      cases h
      obtain ⟨d, hd⟩ := Registry.contains_iff_find?.mp hold
      rw [hd, hwithin.find? hd]
      rfl
  · cases h
    rw [← name_parametersRecord name ps types]
    cases hfind : r₁.find? (parametersRecord name ps types).name with
    | some d => exact (r₁.within_register _).find? hfind
    | none =>
        refine Registry.find?_register (Bool.eq_false_iff.mpr fun hcontains => ?_)
        obtain ⟨d, hd⟩ := Registry.contains_iff_find?.mp hcontains
        cases hfind.symm.trans hd

end AgentCompiler.Schema

namespace AgentCompiler.Tool

open Schema

/-! ## Operations in order -/

/-- An operation that becomes a tool: its group, whether a gateway serves it, and the name of the
tool. -/
structure Job where
  group : ActionGroup
  proxied : Bool
  name : String
  origin : Origin

namespace Job

/-- The tool of an operation. -/
def build (j : Job) : Mapping Tool := Tool.build j.group j.proxied j.name j.origin

/-- The name of the record of all that a tool takes, before it is made a class. -/
def inputName (j : Job) : String := j.name ++ "_Input"

/-- The class of the record of all that a tool takes. -/
def inputClass (j : Job) : String := Name.pascal j.inputName

end Job

/-- The operations of a planned group. -/
def Planned.jobs (p : Planned) (gateway : Bool) : List Job :=
  p.tools.map fun e =>
    ⟨p.group, p.isProxied gateway, Name.prune e.1 (p.budget gateway), e.2⟩

/-- The operations of the groups of an agent, in the order in which their tools are made. -/
def jobs (groups : List ActionGroup) (gateway : Bool) : List Job :=
  (plan groups).flatMap (·.jobs gateway)

/-- The tools of the groups are made one after the other. -/
theorem mapM_jobs {groups : List ActionGroup} {gateway : Bool} {gs : List ToolGroup}
    {r r' : Registry} (h : synthesize groups gateway r = some (gs, r')) :
    (jobs groups gateway).mapM Job.build r = some (gs.flatMap (·.tools), r') := by
  have hgroup {p : Planned} {g : ToolGroup} {r r' : Registry}
      (h : p.build gateway r = some (g, r')) :
      (p.jobs gateway).mapM Job.build r = some (g.tools, r') := by
    obtain ⟨⟨tools, r₁⟩, htools, hg⟩ := Option.bind_eq_some_iff.mp h
    cases hg
    rw [Planned.jobs, List.mapM_map]
    exact htools
  have hplan (ps : List Planned) {gs : List ToolGroup} {r r' : Registry}
      (h : ps.mapM (·.build gateway) r = some (gs, r')) :
      (ps.flatMap (·.jobs gateway)).mapM Job.build r = some (gs.flatMap (·.tools), r') := by
    induction ps generalizing gs r with
    | nil =>
        cases h
        rfl
    | cons p ps ih =>
        rw [List.mapM_cons] at h
        obtain ⟨⟨g, r₁⟩, hg, h⟩ := Option.bind_eq_some_iff.mp h
        obtain ⟨⟨gs', r₂⟩, hgs, h⟩ := Option.bind_eq_some_iff.mp h
        cases h
        exact mapM_append_eq_some.mpr ⟨_, _, _, hgroup hg, ih hgs, rfl⟩
  exact hplan _ h

theorem sound_jobs (js : List Job) (r : Registry) :
    Sound r (js.mapM Job.build) fun r' ts => ∀ t ∈ ts, KnowsTool r' t.input :=
  Sound.mapM (R := fun r (t : Tool) => KnowsTool r t.input)
    (fun _ _ _ hwithin ht type htype => hwithin.knows (ht type htype)) _
    fun _ _ r' _ => sound_build _ _ _ _ r'

/-! ## Inputs of functions -/

/-- A declaration is a record with one field for each parameter of a function, in order, which is
required when the parameter is. -/
def Describes (d : Declaration) (f : Function) : Prop :=
  d.signature = f.parameters.map fun p => (p.name, p.required)

theorem describes_getD_iff {f : Function} {own : Declaration} {found : Option Declaration}
    (hown : Describes own f) :
    Describes (found.getD own) f ↔ ∀ d, found = some d → Describes d f := by
  cases found with
  | none => simp [hown]
  | some d => simp

/-- The tool of a function has the name that it was given, and it takes what its parameters are mapped
to. -/
theorem build_function {j : Job} {f : Function} {r r' : Registry} {t : Tool}
    (hproxied : j.proxied = false) (hf : j.origin = .function f) (h : j.build r = some (t, r')) :
    t.name = j.name ∧ ∃ type, mapParameters [] f.parameters j.inputName r = some (type, r') ∧
      t.input = (type.map ToolInput.typed).getD .none := by
  obtain ⟨group, proxied, name, origin⟩ := j
  subst hproxied hf
  obtain ⟨⟨input, r₁⟩, hinput, ht⟩ := Option.bind_eq_some_iff.mp h
  cases ht
  obtain ⟨⟨type, r₂⟩, htype, hinput⟩ := Option.bind_eq_some_iff.mp hinput
  cases type with
  | none =>
      cases hinput
      exact ⟨rfl, none, htype, rfl⟩
  | some type =>
      cases hinput
      exact ⟨rfl, some type, htype, rfl⟩

/-- The tool of a function with parameters takes the class of its name. -/
theorem input_function {j : Job} {f : Function} {r r' : Registry} {t : Tool}
    (hproxied : j.proxied = false) (hf : j.origin = .function f) (hps : f.parameters ≠ [])
    (h : j.build r = some (t, r')) : t.input = .typed (.named j.inputClass) := by
  obtain ⟨-, type, htype, hinput⟩ := build_function hproxied hf h
  rw [hinput, class_mapParameters hps htype]
  rfl

theorem proxied_of_mem_jobs {groups : List ActionGroup} {j : Job} (h : j ∈ jobs groups false) :
    j.proxied = false := by
  obtain ⟨p, -, hj⟩ := List.mem_flatMap.mp h
  obtain ⟨e, -, rfl⟩ := List.mem_map.mp hj
  rfl

/-- The tool of a function with parameters names a class of its own name. The class is declared, by its
own record unless something is found under it before that record is added. So the input describes the
function exactly when what is found there does. Two tools share an input when their classes are one. -/
theorem inputs_describe_iff {groups : List ActionGroup} {gs : List ToolGroup} {r : Registry}
    (h : synthesize groups false {} = some (gs, r)) :
    (∀ before j after f, jobs groups false = before ++ j :: after → j.origin = .function f →
      f.parameters ≠ [] → ∃ ts r₁ types r₂ t d,
        before.mapM Job.build {} = some (ts, r₁) ∧
        f.parameters.mapM (parameterType [] j.inputName) r₁ = some (types, r₂) ∧
        (gs.flatMap (·.tools))[before.length]? = some t ∧ t.name = j.name ∧
        t.input = .typed (.named j.inputClass) ∧ r.find? j.inputClass = some d ∧
        (Describes d f ↔ ∀ e, r₂.find? j.inputClass = some e → Describes e f)) ∧
    ∀ j t j' t' f f', (j, t) ∈ (jobs groups false).zip (gs.flatMap (·.tools)) →
      (j', t') ∈ (jobs groups false).zip (gs.flatMap (·.tools)) → j.origin = .function f →
      j'.origin = .function f' → f.parameters ≠ [] → f'.parameters ≠ [] →
      (t.input = t'.input ↔ j.inputClass = j'.inputClass) := by
  have hjobs := mapM_jobs h
  constructor
  · intro before j after f hsplit hf hps
    have hproxied : j.proxied = false :=
      proxied_of_mem_jobs (hsplit ▸ List.mem_append_right before List.mem_cons_self)
    rw [hsplit] at hjobs
    obtain ⟨ts, r₁, ts', hbefore, hrest, htools⟩ := mapM_append_eq_some.mp hjobs
    rw [List.mapM_cons] at hrest
    obtain ⟨⟨t, r₃⟩, ht, hrest⟩ := Option.bind_eq_some_iff.mp hrest
    obtain ⟨⟨ts'', r₄⟩, hafter, hrest⟩ := Option.bind_eq_some_iff.mp hrest
    cases hrest
    obtain ⟨-, hr₁, -⟩ := sound_jobs before {} Registry.ordered_empty ts r₁ hbefore
    obtain ⟨-, hr₃, -⟩ := sound_build _ _ _ _ r₁ hr₁ t r₃ ht
    obtain ⟨hwithin, -, -⟩ := sound_jobs after r₃ hr₃ ts'' r hafter
    obtain ⟨hname, type, htype, -⟩ := build_function hproxied hf ht
    obtain ⟨types, r₂, htypes, hfind⟩ := find?_mapParameters hps hr₁ htype
    have hlength : ts.length = before.length :=
      (mapM_forall₂ (R := fun _ _ => True) (fun _ _ _ _ _ => trivial) hbefore).length_eq.symm
    refine ⟨ts, r₁, types, r₂, t, _, hbefore, htypes, ?_, hname, input_function hproxied hf hps ht,
      hwithin.find? hfind, ?_⟩
    · rw [htools, ← hlength, List.getElem?_append_right (Nat.le_refl _), Nat.sub_self]
      rfl
    · have hown : Describes (parametersRecord j.inputName f.parameters types) f :=
        signature_parametersRecord
          (mapM_forall₂ (R := fun _ _ => True) (fun _ _ _ _ _ => trivial) htypes).length_eq.symm
      exact describes_getD_iff hown
  · intro j t j' t' f f' hj hj' hf hf' hps hps'
    have hinput {j : Job} {t : Tool} {f : Function}
        (hj : (j, t) ∈ (jobs groups false).zip (gs.flatMap (·.tools))) (hf : j.origin = .function f)
        (hps : f.parameters ≠ []) : t.input = .typed (.named j.inputClass) := by
      have hbuilt := mapM_forall₂ (R := fun j t => j.proxied = false → ∀ f, j.origin = .function f →
        f.parameters ≠ [] → t.input = .typed (.named j.inputClass))
        (fun j r t r' ht hproxied f hf hps => input_function hproxied hf hps ht) hjobs
      exact (List.forall₂_iff_zip.mp hbuilt).2 hj (proxied_of_mem_jobs (List.of_mem_zip hj).1) f hf hps
    rw [hinput hj hf hps, hinput hj' hf' hps', ToolInput.typed.injEq, TypeExpr.named.injEq]

/-! ## Two functions of one class -/

/-- A function of one parameter. -/
def step (name parameter : String) : Function := { name, parameters := [{ name := parameter }] }

/-- Two functions whose tools have different names, but make the same class. -/
def steps (first second : String) : ActionGroup :=
  { name := "g", schema := some (.functions [step "step 1" first, step "step1" second]) }

/-- The first operation of the group. -/
def firstStep (first second : String) : Job :=
  ⟨steps first second, false, "g_step_1", .function (step "step 1" first)⟩

/-- The second operation of the group. -/
def secondStep (first second : String) : Job :=
  ⟨steps first second, false, "g_step1", .function (step "step1" second)⟩

theorem jobs_steps (first second : String) :
    jobs [steps first second] false = [firstStep first second, secondStep first second] := by
  have hraw : rawNames [steps first second] = ["g_step_1", "g_step1"] := by
    show [Name.snake "g" ++ "_" ++ Name.snake "step 1", Name.snake "g" ++ "_" ++ Name.snake "step1"] = _
    decide +kernel
  have hspaces : Name.namespaces ["g"] = ["g"] := by decide +kernel
  have hnames : Name.distinct ["g_step_1", "g_step1"] = ["g_step_1", "g_step1"] := by decide +kernel
  have hplan : plan [steps first second] = handOut ([steps first second].zip (Name.namespaces ["g"]))
      (Name.distinct (rawNames [steps first second])) := rfl
  have hfirst : Name.prune "g_step_1" Name.toolBudget = "g_step_1" := by decide +kernel
  have hsecond : Name.prune "g_step1" Name.toolBudget = "g_step1" := by decide +kernel
  rw [hraw, hspaces, hnames] at hplan
  rw [jobs, hplan]
  show [Job.mk (steps first second) false (Name.prune "g_step_1" Name.toolBudget) _,
    Job.mk (steps first second) false (Name.prune "g_step1" Name.toolBudget) _] = _
  rw [hfirst, hsecond]
  rfl

/-- Two functions of one class and with the same parameters share a record that describes both. -/
theorem inputs_describe_steps :
    ∃ gs r t d, synthesize [steps "a" "a"] false {} = some (gs, r) ∧
      (gs.flatMap (·.tools))[1]? = some t ∧ t.input = .typed (.named "GStep1Input") ∧
      r.find? "GStep1Input" = some d ∧ Describes d (step "step1" "a") := by
  have hends : Ends (synthesize [steps "a" "a"] false) :=
    ends_synthesize _ _ fun g hg document hschema => by
      obtain rfl := List.mem_singleton.mp hg
      cases hschema
  obtain ⟨⟨gs, r⟩, h⟩ := Option.isSome_iff_exists.mp (hends {})
  obtain ⟨ts, r₁, types, r₂, t, d, hbefore, htypes, ht, -, hinput, hd, hdescribes⟩ :=
    (inputs_describe_iff h).1 [firstStep "a" "a"] (secondStep "a" "a") [] (step "step1" "a")
      (jobs_steps "a" "a") rfl (List.cons_ne_nil _ _)
  have hclass : (secondStep "a" "a").inputClass = "GStep1Input" := by decide +kernel
  have hfirst : (([firstStep "a" "a"].mapM Job.build {}).bind fun x =>
      (x.2.find? "GStep1Input").map Declaration.signature) = some [("a", false)] := by decide +kernel
  rw [hclass] at hinput hd hdescribes
  rw [hbefore, Option.bind_some] at hfirst
  -- The second parameter is a text, so nothing is declared for it.
  cases htypes
  refine ⟨gs, r, t, d, h, ht, hinput, hd, hdescribes.mpr fun e he => ?_⟩
  rw [he] at hfirst
  exact Option.some.inj hfirst

/-- Two functions of one class with different parameters share a record that describes the first one
only. -/
theorem inputs_not_describe_steps :
    ∃ gs r t d, synthesize [steps "a" "b"] false {} = some (gs, r) ∧
      (gs.flatMap (·.tools))[1]? = some t ∧ t.input = .typed (.named "GStep1Input") ∧
      r.find? "GStep1Input" = some d ∧ ¬Describes d (step "step1" "b") := by
  have hrun : (synthesize [steps "a" "b"] false {}).bind (fun x =>
      ((x.1.flatMap (·.tools))[1]?).bind fun t => (x.2.find? "GStep1Input").map fun d =>
        (t.input, d.signature)) = some (.typed (.named "GStep1Input"), [("a", false)]) := by
    decide +kernel
  obtain ⟨⟨gs, r⟩, h, hrun⟩ := Option.bind_eq_some_iff.mp hrun
  obtain ⟨t, ht, hrun⟩ := Option.bind_eq_some_iff.mp hrun
  obtain ⟨d, hd, hrun⟩ := Option.map_eq_some_iff.mp hrun
  obtain ⟨hinput, hsignature⟩ := Prod.mk.inj hrun
  refine ⟨gs, r, t, d, h, ht, hinput, hd, ?_⟩
  rw [Describes, hsignature]
  decide

end AgentCompiler.Tool
