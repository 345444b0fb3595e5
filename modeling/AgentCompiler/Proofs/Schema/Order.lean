import AgentCompiler.Proofs.Schema.Call
import AgentCompiler.Proofs.Typing.Order
import AgentCompiler.Tool.Synthesis

/-!
# The mapping keeps the order of definition

From a registry in order every mapping leaves one that extends it and is in order, with a result that
mentions declared names only. `Sound` states this for one computation, its rules follow the way the
mapping is put together, and one step of the mapping carries over to all of it.
-/

namespace AgentCompiler.Schema

/-! ## Sound computations -/

/-- From the registry `r`, when it is in order, a computation leaves a registry in order that extends
it, and its result meets `Q` there. -/
def Sound {α : Type} (r : Registry) (m : Mapping α) (Q : Registry → α → Prop) : Prop :=
  r.Ordered → ∀ a r', m r = some (a, r') → r.Within r' ∧ r'.Ordered ∧ Q r' a

namespace Sound

variable {α β : Type} {r : Registry} {Q : Registry → α → Prop} {R : Registry → β → Prop}

theorem pure {a : α} (h : r.Ordered → Q r a) : Sound r (Pure.pure a) Q := by
  intro hr b r' hb
  cases hb
  exact ⟨.refl r, hr, h hr⟩

theorem bind {m : Mapping α} {f : α → Mapping β} (hm : Sound r m Q)
    (hf : ∀ a r', r.Within r' → Q r' a → Sound r' (f a) R) : Sound r (m >>= f) R := by
  intro hr b r'' hb
  obtain ⟨⟨a, r'⟩, ha, hfa⟩ := Option.bind_eq_some_iff.mp hb
  obtain ⟨hwithin, hr', hQ⟩ := hm hr a r' ha
  obtain ⟨hwithin', hr'', hR⟩ := hf a r' hwithin hQ hr' b r'' hfa
  exact ⟨hwithin.trans hwithin', hr'', hR⟩

theorem get : Sound r MonadState.get fun r' a => a = r' := by
  intro hr a r' ha
  cases ha
  exact ⟨.refl r, hr, rfl⟩

/-- The results for the items of a list meet `Q` together, when what `Q` says is kept by later
declarations. -/
theorem mapM {f : α → Mapping β} (hR : ∀ r r' b, r.Within r' → R r b → R r' b) (as : List α)
    (hf : ∀ a ∈ as, ∀ r', r.Within r' → Sound r' (f a) R) :
    Sound r (as.mapM f) fun r' bs => ∀ b ∈ bs, R r' b := by
  induction as generalizing r with
  | nil => exact pure fun _ b hb => by cases hb
  | cons a as ih =>
      rw [List.mapM_cons]
      refine (hf a List.mem_cons_self r (.refl r)).bind fun b r' hwithin hb => ?_
      refine (ih fun a' ha' r'' hr'' => hf a' (List.mem_cons_of_mem _ ha') r'' (hwithin.trans hr''))
        |>.bind fun bs r'' hwithin' hbs => ?_
      refine pure fun _ c hc => ?_
      rcases List.mem_cons.mp hc with rfl | hc
      · exact hR _ _ _ hwithin' hb
      · exact hbs c hc

/-- A declaration that mentions declared names only is added soundly. -/
theorem declare {d : Declaration} (hd : ∀ t ∈ d.types, r.Knows t) :
    Sound r (declare d) Registry.Knows := by
  intro hr a r' ha
  cases ha
  refine ⟨r.within_register d, hr.register hd, fun name hname => ?_⟩
  obtain rfl := List.mem_singleton.mp hname
  exact r.contains_register d

/-- A type that mentions nothing may always be returned. -/
theorem pure_of_names_eq_nil {t : TypeExpr} (h : t.names = []) :
    Sound r (Pure.pure t) Registry.Knows :=
  pure fun _ => Registry.knows_of_names_eq_nil h

end Sound

/-! ## One step -/

/-- Only types of a list are added as its distinct types. -/
theorem mem_foldl_distinct {t : TypeExpr} {acc types : List TypeExpr}
    (h : t ∈ types.foldl (fun acc t => if acc.contains t then acc else acc ++ [t]) acc) :
    t ∈ acc ∨ t ∈ types := by
  induction types generalizing acc with
  | nil => exact .inl h
  | cons t' types ih =>
      rcases ih h with hacc | htypes
      · dsimp only at hacc
        split at hacc
        · exact .inl hacc
        · rcases List.mem_append.mp hacc with hacc | ht'
          · exact .inl hacc
          · exact .inr (List.mem_cons.mpr (.inl (List.mem_singleton.mp ht')))
      · exact .inr (List.mem_cons_of_mem _ htypes)

/-- A field whose type mentions declared names only. -/
def KnowsField (r : Registry) (f : Field) : Prop := r.Knows f.type

theorem KnowsField.within {r r' : Registry} {f : Field} (h : r.Within r') (hf : KnowsField r f) :
    KnowsField r' f := h.knows hf

/-- A record of known fields is declared soundly. -/
theorem sound_record {r : Registry} {name : String} {description : Option String}
    {fields : List Field} (h : ∀ f ∈ fields, KnowsField r f) :
    Sound r (declare (.record name description fields)) Registry.Knows := by
  refine Sound.declare fun t ht => ?_
  obtain ⟨f, hf, rfl⟩ := Declaration.mem_types_record ht
  exact h f hf

section

variable {map : Mapper} (hmap : ∀ scope schema name position mediaType r,
  Sound r (map scope schema name position mediaType) Registry.Knows)
include hmap

theorem sound_mapReference (scope : Scope) (reference : String) (r : Registry) :
    Sound r (mapReference map scope reference) Registry.Knows := by
  refine Sound.get.bind fun r₀ r' _ hr₀ => ?_
  subst hr₀
  split
  · next hcontains => exact Sound.pure fun _ => Registry.knows_named.mpr hcontains
  split
  · exact Sound.pure_of_names_eq_nil rfl
  split
  · exact Sound.pure_of_names_eq_nil rfl
  · exact hmap _ _ _ _ _ _

theorem sound_mapUnion (scope : Scope) (branches : List Json) (name : String) (r : Registry) :
    Sound r (mapUnion (map scope · · .field none) branches name) Registry.Knows := by
  refine (Sound.mapM (R := Registry.Knows) (fun _ _ _ hwithin => hwithin.knows) _
    fun _ _ r' _ => hmap _ _ _ _ _ r').bind fun types r' _ htypes => ?_
  have hdistinct : ∀ t ∈ types.foldl (fun acc t => if acc.contains t then acc else acc ++ [t]) [],
      r'.Knows t := fun t ht => htypes t ((mem_foldl_distinct ht).resolve_left List.not_mem_nil)
  split
  · exact Sound.pure_of_names_eq_nil rfl
  · next t heq => exact Sound.pure fun _ => hdistinct t (by rw [heq]; exact List.mem_cons_self)
  · exact Sound.pure fun _ => Registry.knows_union.mpr hdistinct

theorem sound_mapObject (scope : Scope) (node : Members) (name : String)
    (mediaType : Option String) (r : Registry) :
    Sound r (mapObject (map scope · · .field none) node name mediaType) Registry.Knows := by
  refine Sound.get.bind fun r₀ r' _ hr₀ => ?_
  subst hr₀
  split
  · next hcontains => exact Sound.pure fun _ => Registry.knows_named.mpr hcontains
  refine (Sound.mapM (R := KnowsField) (fun _ _ _ => KnowsField.within) _ fun e _ r' _ => ?_).bind
    fun fields r' _ hfields => ?_
  · refine (hmap _ _ _ _ _ r').bind fun type r'' _ htype => Sound.pure fun _ => ?_
    rw [KnowsField, Declaration.type_ofProperty]
    exact htype
  · refine sound_record fun f hf => ?_
    rcases List.mem_append.mp hf with hfirst | hf
    · obtain ⟨m, -, rfl⟩ := Option.map_eq_some_iff.mp (Option.mem_toList.mp hfirst)
      exact Registry.knows_of_names_eq_nil (by rw [Declaration.type_ofProperty]; rfl)
    · exact hfields f hf

/-- One step keeps the order when the mapping of what it leads to does. -/
theorem sound_mapStep (scope : Scope) (schema : Json) (name : String) (position : Position)
    (mediaType : Option String) (r : Registry) :
    Sound r (mapStep map scope schema name position mediaType) Registry.Knows := by
  have hobject (node : Members) (other : TypeExpr) (hother : other.names = []) :
      Sound r (if (node.lookup "properties").isSome || position == .root then
          mapObject (map scope · · .field none) node name mediaType
        else pure other) Registry.Knows := by
    split
    · exact sound_mapObject hmap scope node name mediaType r
    · exact Sound.pure_of_names_eq_nil hother
  cases schema with
  | obj node =>
      simp only [mapStep]
      split
      · exact sound_mapReference hmap scope _ r
      · exact sound_mapUnion hmap scope _ name r
      · exact hmap _ _ _ _ _ r
      · simp only [mapTagged]
        split
        · exact hobject node .any rfl
        · exact hobject node .map rfl
        · cases node.lookup "items" with
          | none => exact Sound.pure_of_names_eq_nil rfl
          | some items =>
              exact (hmap _ _ _ _ _ r).bind fun type r' _ htype =>
                Sound.pure fun _ => Registry.knows_list.mpr htype
        · exact Sound.pure_of_names_eq_nil (TypeExpr.names_ofTag _)
  | null | bool _ | num _ | str _ | arr _ => exact Sound.pure_of_names_eq_nil rfl

end

/-! ## Whole runs -/

/-- The mapping of a schema keeps the order, and its type mentions declared names only. -/
theorem sound_mapNode (scope : Scope) (schema : Json) (name : String) (position : Position)
    (mediaType : Option String) (r : Registry) :
    Sound r (Scope.mapNode scope schema name position mediaType) Registry.Knows := by
  intro hr type r' hresult
  -- The invariant of a result, in the registry that it was found in.
  refine Scope.mapNode.partial_correctness
    (fun _ _ _ _ _ r x => r.Ordered → r.Within x.2 ∧ x.2.Ordered ∧ x.2.Knows x.1) ?_
    scope schema name position mediaType r (type, r') hresult hr
  intro map ih scope schema name position mediaType r x hstep hr
  exact sound_mapStep (fun _ _ _ _ _ r hr type r' h => ih _ _ _ _ _ r (type, r') h hr)
    scope schema name position mediaType r hr x.1 x.2 hstep

/-- What an optional type mentions is declared. -/
def KnowsInput (r : Registry) (type : Option TypeExpr) : Prop := ∀ t ∈ type, r.Knows t

theorem sound_mapParameters (components : Members) (ps : List Api.Parameter) (name : String)
    (r : Registry) : Sound r (mapParameters components ps name) KnowsInput := by
  unfold mapParameters
  split
  · exact Sound.pure fun _ t ht => by cases ht
  refine Sound.get.bind fun r₀ r' _ hr₀ => ?_
  subst hr₀
  dsimp only
  split
  · next hcontains =>
      exact Sound.pure fun _ t ht => Option.some.inj ht ▸ Registry.knows_named.mpr hcontains
  refine (Sound.mapM (R := KnowsField) (fun _ _ _ => KnowsField.within) _ fun p _ r' _ => ?_).bind
    fun fields r' _ hfields => ?_
  · have hfield (type : TypeExpr) (r'' : Registry) (htype : r''.Knows type) :
        KnowsField r'' (Field.ofProperty p.name type p.required (some p.description)) := by
      rw [KnowsField, Declaration.type_ofProperty]
      exact htype
    have hmapped (schema : Json) : Sound r' (do
        let type ← mapField components schema (name ++ "_" ++ p.name)
        pure (Field.ofProperty p.name type p.required (some p.description))) KnowsField :=
      (sound_mapNode _ _ _ _ _ r').bind fun type r'' _ htype => Sound.pure fun _ => hfield _ _ htype
    split
    · exact hmapped _
    · exact hmapped _
    · exact Sound.pure fun _ => hfield _ _ (Registry.knows_of_names_eq_nil rfl)
  · exact (sound_record hfields).bind fun type r'' _ htype =>
      Sound.pure fun _ t ht => Option.some.inj ht ▸ htype

theorem sound_mapContent (components : Members) (content : List Api.MediaSchema) (tool : String)
    (r : Registry) : Sound r (mapContent components content tool) KnowsInput := by
  unfold mapContent
  refine (Sound.mapM (R := Registry.Knows) (fun _ _ _ hwithin => hwithin.knows) _
    fun _ _ r' _ => sound_mapNode _ _ _ _ _ r').bind fun types r' _ htypes => ?_
  dsimp only
  generalize hrecords : types.filter _ = records
  have hdistinct : ∀ t ∈ records.foldl (fun acc t => if acc.contains t then acc else acc ++ [t]) [],
      r'.Knows t := by
    intro t ht
    have hmem := (mem_foldl_distinct ht).resolve_left List.not_mem_nil
    rw [← hrecords] at hmem
    exact htypes t (List.mem_of_mem_filter hmem)
  split
  · exact Sound.pure fun _ t ht => by cases ht
  · next t heq =>
      refine Sound.pure fun _ t' ht' => ?_
      obtain rfl := Option.some.inj ht'
      exact hdistinct _ (by rw [heq]; exact List.mem_cons_self)
  · exact (Sound.declare (d := .union _ _) hdistinct).bind fun type r'' _ htype =>
      Sound.pure fun _ t ht => Option.some.inj ht ▸ htype

theorem sound_compose (tool : String) (parameters body : Option (TypeExpr × Bool)) (r : Registry)
    (hparameters : ∀ e ∈ parameters, r.Knows e.1) (hbody : ∀ e ∈ body, r.Knows e.1) :
    Sound r (compose tool parameters body) KnowsInput := by
  unfold compose
  split
  · next ps _ b _ =>
      refine (sound_record fun f hf => ?_).bind fun type r'' _ htype =>
        Sound.pure fun _ t ht => Option.some.inj ht ▸ htype
      rcases List.mem_cons.mp hf with rfl | hf
      · rw [KnowsField, Declaration.type_ofProperty]
        exact hparameters _ rfl
      · obtain rfl := List.mem_singleton.mp hf
        rw [KnowsField, Declaration.type_ofProperty]
        exact hbody _ rfl
  · exact Sound.pure fun _ t ht => Option.some.inj ht ▸ hparameters _ rfl
  · exact Sound.pure fun _ t ht => Option.some.inj ht ▸ hbody _ rfl
  · exact Sound.pure fun _ t ht => by cases ht

/-! ## Tools -/

open Tool

/-- What the input of a tool mentions is declared. -/
def KnowsTool (r : Registry) (input : ToolInput) : Prop :=
  ∀ type, input = .typed type → r.Knows type

theorem sound_requestInput (document : Json) (o : Api.Operation) (name : String) (r : Registry) :
    Sound r (requestInput document o name) KnowsTool := by
  refine (sound_mapParameters _ _ _ r).bind fun parameters r₁ _ hparameters => ?_
  refine (sound_mapContent _ _ _ r₁).bind fun body r₂ hwithin hbody => ?_
  dsimp only
  split
  · exact Sound.pure fun _ type htype => by cases htype
  refine (sound_compose _ _ _ r₂ ?_ ?_).bind fun type r₃ _ htype => ?_
  · intro e he
    obtain ⟨t, ht, rfl⟩ := Option.map_eq_some_iff.mp he
    exact hwithin.knows (hparameters t ht)
  · intro e he
    obtain ⟨t, ht, rfl⟩ := Option.map_eq_some_iff.mp he
    exact hbody t ht
  split
  · next t => exact Sound.pure fun _ t' ht' => ToolInput.typed.inj ht' ▸ htype t rfl
  · exact Sound.pure fun _ type htype => by cases htype

theorem sound_functionInput (f : Function) (name : String) (r : Registry) :
    Sound r (functionInput f name) KnowsTool := by
  refine (sound_mapParameters _ _ _ r).bind fun type r' _ htype => ?_
  split
  · next t => exact Sound.pure fun _ t' ht' => ToolInput.typed.inj ht' ▸ htype t rfl
  · exact Sound.pure fun _ type htype => by cases htype

theorem sound_build (g : ActionGroup) (proxied : Bool) (name : String) (origin : Origin)
    (r : Registry) :
    Sound r (Tool.build g proxied name origin) fun r' t => KnowsTool r' t.input := by
  have hinput : Sound r (inputOf proxied origin name) KnowsTool := by
    unfold inputOf
    split
    · exact Sound.pure fun _ type htype => by cases htype
    · cases origin with
      | request document o => exact sound_requestInput document o name r
      | function f => exact sound_functionInput f name r
  refine hinput.bind fun input r' _ hknows => ?_
  cases origin <;> exact Sound.pure fun _ => hknows

theorem sound_synthesize (groups : List ActionGroup) (gateway : Bool) (r : Registry) :
    Sound r (synthesize groups gateway) fun r' gs =>
      ∀ g ∈ gs, ∀ t ∈ g.tools, KnowsTool r' t.input := by
  have hkeep (r r' : Registry) (t : Tool) (hwithin : r.Within r') (ht : KnowsTool r t.input) :
      KnowsTool r' t.input := fun type htype => hwithin.knows (ht type htype)
  refine Sound.mapM (R := fun r (g : ToolGroup) => ∀ t ∈ g.tools, KnowsTool r t.input)
    (fun r r' g hwithin hg t ht => hkeep r r' t hwithin (hg t ht)) _ fun p _ r' _ => ?_
  refine (Sound.mapM (R := fun r t => KnowsTool r t.input) hkeep _
    fun e _ r'' _ => sound_build _ _ _ _ r'').bind fun tools r'' _ htools => ?_
  exact Sound.pure fun _ => htools

/-- After a synthesis every name that a declaration mentions is declared before it, and every name that
the input of a tool mentions is declared. -/
theorem synthesize_ordered {groups : List ActionGroup} {gateway : Bool} {gs : List ToolGroup}
    {r : Registry} (h : synthesize groups gateway {} = some (gs, r)) :
    r.Ordered ∧ ∀ g ∈ gs, ∀ t ∈ g.tools, ∀ type, t.input = .typed type →
      ∀ name ∈ type.names, ∃ d ∈ r.declarations, d.name = name := by
  obtain ⟨-, hordered, hinputs⟩ := sound_synthesize groups gateway {} Registry.ordered_empty gs r h
  refine ⟨hordered, fun g hg t ht type htype name hname => ?_⟩
  exact Registry.contains_iff.mp (hinputs g hg t ht type htype name hname)

/-! ## A function with a record among its parameters -/

/-- An object with one text in it. -/
def ownerSchema : Json := .obj [("type", .str "object"),
  ("properties", .obj [("name", .obj [("type", .str "string")])])]

def owner : Api.Parameter := { name := "owner", schema := some ownerSchema }

def findPets : Function := { name := "find", parameters := [owner] }

/-- A group of one function, which takes a record. -/
def pets : ActionGroup := { name := "pets", schema := some (.functions [findPets]) }

def ownerRecord : Declaration :=
  .record "PetsFindInputOwner" none [.ofProperty "name" .text false none]

def inputRecord : Declaration :=
  .record "PetsFindInput" none [.ofProperty "owner" (.named "PetsFindInputOwner") false none]

theorem mapField_owner : mapField [] ownerSchema "pets_find_Input_owner" {} =
    some (.named "PetsFindInputOwner", ⟨[ownerRecord]⟩) :=
  mapWithin_below 2 _ _ _ _ _ _ _ rfl

theorem mapParameters_owner : mapParameters [] [owner] "pets_find_Input" {} =
    some (some (.named "PetsFindInput"), ⟨[ownerRecord, inputRecord]⟩) := by
  unfold mapParameters
  simp only [owner, List.isEmpty_cons, Bool.false_eq_true, if_false, List.mapM_cons, List.mapM_nil,
    bind, StateT.bind]
  rw [show ("pets_find_Input" : String) ++ "_" ++ "owner" = "pets_find_Input_owner" by rfl]
  simp only [get, getThe, MonadStateOf.get, StateT.get, pure, Option.bind_some]
  rw [show Registry.contains {} (Name.pascal "pets_find_Input") = false by rfl]
  simp only [Bool.false_eq_true, if_false, StateT.bind, bind, mapField_owner, Option.bind_some]
  rfl

/-- The record of the parameter is declared before the record that has it as a field. -/
theorem synthesize_pets :
    ∃ gs, synthesize [pets] false {} = some (gs, ⟨[ownerRecord, inputRecord]⟩) := by
  have hplan : plan [pets] = [⟨pets, "pets", [("pets_find", .function findPets)]⟩] := by rfl
  have hprune : Name.prune "pets_find"
      ((⟨pets, "pets", [("pets_find", .function findPets)]⟩ : Planned).budget false) =
      "pets_find" := by rfl
  rw [synthesize, hplan]
  simp only [List.mapM_cons, List.mapM_nil, Planned.build, Tool.build, inputOf, functionInput,
    Planned.isProxied, Bool.false_and, hprune, bind, StateT.bind, Bool.false_eq_true, if_false]
  rw [show ("pets_find" : String) ++ "_Input" = "pets_find_Input" by rfl,
    show findPets.parameters = [owner] by rfl, mapParameters_owner]
  exact ⟨_, rfl⟩

theorem synthesize_pets_ordered :
    ∃ gs, synthesize [pets] false {} = some (gs, ⟨[ownerRecord, inputRecord]⟩) ∧
      Registry.Ordered ⟨[ownerRecord, inputRecord]⟩ ∧
      ∀ g ∈ gs, ∀ t ∈ g.tools, ∀ type, t.input = .typed type →
        ∀ name ∈ type.names, ∃ d ∈ [ownerRecord, inputRecord], d.name = name := by
  obtain ⟨gs, hgs⟩ := synthesize_pets
  exact ⟨gs, hgs, synthesize_ordered hgs⟩

end AgentCompiler.Schema
