import AgentCompiler.Proofs.Name.Class
import AgentCompiler.Proofs.Schema.Order
import AgentCompiler.Proofs.Typing.Signature

/-!
# The names of declarations

The mapping adds declarations under classes and does nothing else to a registry, so it keeps every
invariant that such an addition keeps (`Keeps`). One of them is that the names are distinct and have the
shape of classes, whatever is mapped and in whatever order. They are identifiers except for the classes
of texts that spell a reserved word: `classNames_valid_iff`.
-/

namespace AgentCompiler.Schema

open Tool

/-! ## Computations that keep an invariant -/

/-- What a computation leaves meets `I` when what it starts from does. -/
def Keeps {α : Type} (I : Registry → Prop) (m : Mapping α) : Prop :=
  ∀ r a r', I r → m r = some (a, r') → I r'

/-- Whatever is added under a class, `I` still holds. -/
def KeptByClasses (I : Registry → Prop) : Prop :=
  ∀ r d, (∃ s, d.name = Name.pascal s) → I r → I (r.register d)

namespace Keeps

variable {α β : Type} {I : Registry → Prop}

theorem pure (a : α) : Keeps I (Pure.pure a : Mapping α) := by
  intro r b r' hr hb
  cases hb
  exact hr

theorem get : Keeps I (MonadState.get : Mapping Registry) := by
  intro r a r' hr ha
  cases ha
  exact hr

theorem bind {m : Mapping α} {f : α → Mapping β} (hm : Keeps I m) (hf : ∀ a, Keeps I (f a)) :
    Keeps I (m >>= f) := by
  intro r b r'' hr hb
  obtain ⟨⟨a, r'⟩, ha, hfa⟩ := Option.bind_eq_some_iff.mp hb
  exact hf a r' b r'' (hm r a r' hr ha) hfa

theorem map {m : Mapping α} (f : α → β) (hm : Keeps I m) : Keeps I (f <$> m) :=
  hm.bind fun a => pure (f a)

theorem mapM {f : α → Mapping β} (hf : ∀ a, Keeps I (f a)) (as : List α) : Keeps I (as.mapM f) := by
  induction as with
  | nil => exact pure []
  | cons a as ih =>
      rw [List.mapM_cons]
      exact (hf a).bind fun b => ih.bind fun bs => pure (b :: bs)

/-- A record under a class. -/
theorem record (hI : KeptByClasses I) (name : String) (description : Option String)
    (fields : List Field) : Keeps I (declare (.record (Name.pascal name) description fields)) := by
  intro r a r' hr ha
  cases ha
  exact hI r _ ⟨name, Declaration.name_record _ _ _⟩ hr

/-- A union under a class. -/
theorem union (hI : KeptByClasses I) (name : String) (variants : List TypeExpr) :
    Keeps I (declare (.union (Name.pascal name) variants)) := by
  intro r a r' hr ha
  cases ha
  exact hI r _ ⟨name, Declaration.name_union _ _⟩ hr

end Keeps

section

variable {I : Registry → Prop}

/-! ## One step -/

section

variable {map : Mapper}
  (hmap : ∀ scope schema name position mediaType, Keeps I (map scope schema name position mediaType))
include hmap

theorem keeps_mapReference (scope : Scope) (reference : String) :
    Keeps I (mapReference map scope reference) := by
  refine Keeps.get.bind fun r => ?_
  split
  · exact .pure _
  split
  · exact .pure _
  split
  · exact .pure _
  · exact hmap _ _ _ _ _

theorem keeps_mapUnion (scope : Scope) (branches : List Json) (name : String) :
    Keeps I (mapUnion (map scope · · .field none) branches name) := by
  refine (Keeps.mapM (fun _ => hmap _ _ _ _ _) _).bind fun types => ?_
  split <;> exact .pure _

theorem keeps_mapObject (hI : KeptByClasses I) (scope : Scope) (node : Members) (name : String)
    (mediaType : Option String) :
    Keeps I (mapObject (map scope · · .field none) node name mediaType) := by
  refine Keeps.get.bind fun r => ?_
  split
  · exact .pure _
  · refine (Keeps.mapM (fun e => ?_) _).bind fun fields => .record hI _ _ _
    exact (hmap _ _ _ _ _).bind fun _ => .pure _

/-- One step keeps an invariant when the mapping of what it leads to does. -/
theorem keeps_mapStep (hI : KeptByClasses I) (scope : Scope) (schema : Json) (name : String)
    (position : Position) (mediaType : Option String) :
    Keeps I (mapStep map scope schema name position mediaType) := by
  have hobject (node : Members) (other : TypeExpr) :
      Keeps I (if (node.lookup "properties").isSome || position == .root then
          mapObject (map scope · · .field none) node name mediaType
        else pure other) := by
    split
    · exact keeps_mapObject hmap hI scope node name mediaType
    · exact .pure _
  cases schema with
  | obj node =>
      simp only [mapStep]
      split
      · exact keeps_mapReference hmap scope _
      · exact keeps_mapUnion hmap scope _ name
      · exact hmap _ _ _ _ _
      · simp only [mapTagged]
        split
        · exact hobject node .any
        · exact hobject node .map
        · cases node.lookup "items" with
          | none => exact .pure _
          | some items => exact (hmap _ _ _ _ _).bind fun _ => .pure _
        · exact .pure _
  | null | bool _ | num _ | str _ | arr _ => exact .pure _

end

/-! ## Whole runs -/

variable (hI : KeptByClasses I)
include hI

theorem keeps_mapNode (scope : Scope) (schema : Json) (name : String) (position : Position)
    (mediaType : Option String) :
    Keeps I (Scope.mapNode scope schema name position mediaType) := by
  intro r type r' hr hresult
  -- The mapping is the least fixed point of its step, and the invariant passes to it.
  refine Scope.mapNode.partial_correctness (fun _ _ _ _ _ r x => I r → I x.2) ?_
    scope schema name position mediaType r (type, r') hresult hr
  intro map ih scope schema name position mediaType r x hstep hr
  exact keeps_mapStep (fun _ _ _ _ _ r type r' hr h => ih _ _ _ _ _ r (type, r') h hr)
    hI scope schema name position mediaType r x.1 x.2 hr hstep

theorem keeps_mapParameters (components : Members) (ps : List Api.Parameter) (name : String) :
    Keeps I (mapParameters components ps name) := by
  unfold mapParameters
  split
  · exact .pure _
  refine Keeps.get.bind fun r => ?_
  dsimp only
  split
  · exact .pure _
  refine (Keeps.mapM (fun p => ?_) ps).bind fun fields => (Keeps.record hI _ _ _).map _
  split
  · exact (keeps_mapNode hI _ _ _ _ _).bind fun _ => .pure _
  · exact (keeps_mapNode hI _ _ _ _ _).bind fun _ => .pure _
  · exact .pure _

theorem keeps_mapContent (components : Members) (content : List Api.MediaSchema)
    (tool : String) : Keeps I (mapContent components content tool) := by
  unfold mapContent
  refine (Keeps.mapM (fun _ => keeps_mapNode hI _ _ _ _ _) content).bind fun types => ?_
  dsimp only
  split
  · exact .pure _
  · exact .pure _
  · exact (Keeps.union hI _ _).map _

theorem keeps_compose (tool : String) (parameters body : Option (TypeExpr × Bool)) :
    Keeps I (compose tool parameters body) := by
  unfold compose
  split
  · exact (Keeps.record hI _ _ _).map _
  · exact .pure _
  · exact .pure _
  · exact .pure _

/-! ## Tools -/

theorem keeps_requestInput (document : Json) (o : Api.Operation) (name : String) :
    Keeps I (requestInput document o name) := by
  refine (keeps_mapParameters hI _ _ _).bind fun parameters => ?_
  refine (keeps_mapContent hI _ _ _).bind fun body => ?_
  dsimp only
  split
  · exact .pure _
  · refine (keeps_compose hI _ _ _).bind fun type => ?_
    split <;> exact .pure _

theorem keeps_functionInput (f : Function) (name : String) :
    Keeps I (functionInput f name) := by
  refine (keeps_mapParameters hI _ _ _).bind fun type => ?_
  split <;> exact .pure _

theorem keeps_build (g : ActionGroup) (proxied : Bool) (name : String) (origin : Origin) :
    Keeps I (Tool.build g proxied name origin) := by
  have hinput : Keeps I (inputOf proxied origin name) := by
    unfold inputOf
    split
    · exact .pure _
    · cases origin with
      | request document o => exact keeps_requestInput hI document o name
      | function f => exact keeps_functionInput hI f name
  refine hinput.bind fun input => ?_
  cases origin <;> exact .pure _

theorem keeps_synthesize (groups : List ActionGroup) (gateway : Bool) :
    Keeps I (synthesize groups gateway) := by
  have hgroup (p : Planned) : Keeps I (p.build gateway) :=
    (Keeps.mapM (fun _ => keeps_build hI _ _ _ _) p.tools).bind fun _ => .pure _
  exact Keeps.mapM hgroup (plan groups)

end

/-! ## Classes -/

/-- Declarations under distinct names, each the class of some text. -/
structure Classed (r : Registry) : Prop where
  distinct : (r.declarations.map Declaration.name).Nodup
  classes : ∀ d ∈ r.declarations, ∃ s, d.name = Name.pascal s

theorem classed_empty : Classed {} where
  distinct := List.nodup_nil
  classes := List.forall_mem_nil _

/-- A class is added unless it is declared. -/
theorem keptByClasses_classed : KeptByClasses Classed := by
  intro r d hd h
  unfold Registry.register
  split
  · exact h
  · next hnew =>
      refine ⟨?_, List.forall_mem_append.mpr ⟨h.classes, List.forall_mem_singleton.mpr hd⟩⟩
      rw [List.map_append, List.map_singleton, List.nodup_append]
      refine ⟨h.distinct, List.nodup_singleton _, fun name hname name' hname' heq => ?_⟩
      obtain ⟨e, he, rfl⟩ := List.mem_map.mp hname
      obtain rfl := List.mem_singleton.mp hname'
      exact hnew (Registry.contains_iff.mpr ⟨e, he, heq⟩)

/-- The types of an agent's tools have classes for names. -/
theorem classed_synthesize {groups : List ActionGroup} {gateway : Bool} {gs : List ToolGroup}
    {r : Registry} (h : synthesize groups gateway {} = some (gs, r)) : Classed r :=
  keeps_synthesize keptByClasses_classed groups gateway {} gs r classed_empty h

/-! ## Sessions -/

/-- A use of the mapping: for the top of a declaration, for a field, for parameters, for a body, or for
parameters and body together. -/
inductive Use
  | root (components : Members) (schema : Json) (name : String)
  | field (components : Members) (schema : Json) (name : String)
  | parameters (components : Members) (ps : List Api.Parameter) (name : String)
  | content (components : Members) (content : List Api.MediaSchema) (tool : String)
  | compose (tool : String) (parameters body : Option (TypeExpr × Bool))

/-- What a use of the mapping finds. -/
def Use.run : Use → Mapping (Option TypeExpr)
  | .root components schema name => some <$> mapRoot components schema name
  | .field components schema name => some <$> mapField components schema name
  | .parameters components ps name => mapParameters components ps name
  | .content components media tool => mapContent components media tool
  | .compose tool ps body => Schema.compose tool ps body

theorem keeps_run {I : Registry → Prop} (hI : KeptByClasses I) (use : Use) : Keeps I use.run := by
  cases use with
  | root => exact (keeps_mapNode hI _ _ _ _ _).map _
  | field => exact (keeps_mapNode hI _ _ _ _ _).map _
  | parameters => exact keeps_mapParameters hI _ _ _
  | content => exact keeps_mapContent hI _ _ _
  | compose => exact keeps_compose hI _ _ _

/-- An object of which nothing is known. -/
def plainObject : Json := .obj [("type", .str "object")]

/-- An object at the top of a declaration has the class of its name. -/
theorem mapNode_plainObject (scope : Scope) (name : String) (r : Registry) :
    Scope.mapNode scope plainObject name .root none r =
      some (.named (Name.pascal name), r.register (.record (Name.pascal name) none [])) := by
  have hstep : mapStep Scope.mapNode scope plainObject name .root none =
      mapObject (Scope.mapNode scope · · .field none) [("type", .str "object")] name none := rfl
  rw [Scope.mapNode, hstep, mapObject, bind_apply, get_apply, Option.bind_some]
  split
  · next hold =>
      rw [Registry.register, if_pos (by rw [Declaration.name_record]; exact hold)]
      rfl
  · have hnone : properties (.obj [("type", .str "object")]) = [] := rfl
    simp only [hnone, List.mapM_nil, bind_apply, pure_apply, Option.bind_some, declare_apply,
      Declaration.name_record, Option.map_none, Option.toList_none, List.append_nil]
    rfl

/-- An object that is mapped alone is declared under the class of its name. -/
theorem mapM_run_plainObject (name : String) (r : Registry) :
    [Use.root [] plainObject name].mapM Use.run r = some ([some (.named (Name.pascal name))],
      r.register (.record (Name.pascal name) none [])) := by
  have hrun : (Use.root [] plainObject name).run r =
      some (some (.named (Name.pascal name)), r.register (.record (Name.pascal name) none [])) :=
    Option.bind_eq_some_iff.mpr ⟨_, mapNode_plainObject _ name r, rfl⟩
  rw [List.mapM_cons]
  exact Option.bind_eq_some_iff.mpr ⟨_, hrun, rfl⟩

/-- Whatever the mapping is used for, one use after the other, the names of what is declared are
distinct, and none is too long. Each is the class of a text, and it is an identifier exactly when such a
text spells none of the reserved words `False`, `None` and `True`. The class of any text may come
next. -/
theorem classNames_valid_iff {uses : List Use} {types : List (Option TypeExpr)} {r : Registry}
    (h : uses.mapM Use.run {} = some (types, r)) :
    (r.declarations.map Declaration.name).Nodup ∧
      (∀ d ∈ r.declarations, d.name.length ≤ Name.maxLength ∧ (∃ s, d.name = Name.pascal s) ∧
        ∀ s, d.name = Name.pascal s → (Name.isIdentifier d.name ↔
          ∀ word ∈ Name.constants, ¬Name.Spells s.toList word.toList)) ∧
      ∀ s, ∃ types' r', (uses ++ [Use.root [] plainObject s]).mapM Use.run {} = some (types', r') ∧
        r'.contains (Name.pascal s) := by
  obtain ⟨hdistinct, hclasses⟩ :=
    Keeps.mapM (keeps_run keptByClasses_classed) uses {} types r classed_empty h
  refine ⟨hdistinct, fun d hd => ?_, fun s => ?_⟩
  · obtain ⟨s₀, hs₀⟩ := hclasses d hd
    refine ⟨hs₀ ▸ (Name.isClass_pascal s₀).length_le, ⟨s₀, hs₀⟩, fun s hs => ?_⟩
    rw [hs, (Name.isClass_pascal s).isIdentifier_iff, Name.pascal_mem_constants_iff]
    simp only [not_exists, not_and]
  · have hcontains := Registry.contains_register r (.record (Name.pascal s) none [])
    rw [Declaration.name_record] at hcontains
    exact ⟨_, _, mapM_append_eq_some.mpr ⟨_, _, _, h, mapM_run_plainObject s r, rfl⟩, hcontains⟩

/-! ## Objects without properties -/

/-- Behind a reserved word more letters make another class. -/
theorem classNames_valid_noneOfThese :
    ∃ types r, [Use.root [] plainObject "none of these"].mapM Use.run {} = some (types, r) ∧
      r.declarations.map Declaration.name = ["NoneOfThese"] ∧
      ∀ d ∈ r.declarations, Name.isIdentifier d.name := by
  have hrun := mapM_run_plainObject "none of these" {}
  have hclass : Name.pascal "none of these" = "NoneOfThese" := by decide +kernel
  rw [hclass] at hrun
  have hother : Name.pascal "none of these" ∉ Name.constants := by
    rw [hclass]
    decide
  refine ⟨_, _, hrun, rfl, fun d hd => ?_⟩
  obtain ⟨-, -, hvalid⟩ := (classNames_valid_iff hrun).2.1 d hd
  obtain rfl := List.mem_singleton.mp hd
  refine (hvalid "none of these" hclass.symm).mpr fun word hword hspells => ?_
  exact hother ((Name.pascal_mem_constants_iff _).mpr ⟨word, hword, hspells⟩)

/-- An object that is called after a reserved word is declared under that word. -/
theorem classNames_not_valid_none :
    ∃ types r, [Use.root [] plainObject "none"].mapM Use.run {} = some (types, r) ∧
      ∃ d ∈ r.declarations, d.name = "None" ∧ ¬Name.isIdentifier d.name := by
  have hrun := mapM_run_plainObject "none" {}
  have hclass : Name.pascal "none" = "None" := by decide +kernel
  rw [hclass] at hrun
  exact ⟨_, _, hrun, _, List.mem_singleton.mpr rfl, rfl, by decide +kernel⟩

end AgentCompiler.Schema
