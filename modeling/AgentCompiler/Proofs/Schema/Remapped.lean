import AgentCompiler.Proofs.Schema.Declared
import AgentCompiler.Proofs.Schema.Merged

/-!
# Mapping a schema again

Every use of the mapping adds declarations behind those that are there. What a mapping comes to the second
time it came to the first time, under the same pending classes: a class that it declares is declared by
then, and a reference that it follows it followed before. So the second mapping of a schema declares
nothing: `remapping_idle`.
-/

namespace AgentCompiler.Schema

/-! ## Computations that are idle after others -/

/-- Where `m` has a result the registry has grown, and from then on `m'` has a result in every registry and
leaves it as it is. -/
def IdleAfter {α : Type} (m m' : Mapping α) : Prop :=
  ∀ r a r', m r = some (a, r') → r.Within r' ∧ ∀ r'', r'.Within r'' → ∃ b, m' r'' = some (b, r'')

namespace IdleAfter

variable {α β : Type}

theorem pure (a b : α) : IdleAfter (Pure.pure a) (Pure.pure b) := by
  intro r c r' hc
  cases hc
  exact ⟨.refl r, fun r'' _ => ⟨b, rfl⟩⟩

theorem bind {m m' : Mapping α} {f f' : α → Mapping β} (hm : IdleAfter m m')
    (hf : ∀ a a', IdleAfter (f a) (f' a')) : IdleAfter (m >>= f) (m' >>= f') := by
  intro r b r₂ hb
  obtain ⟨⟨a, r₁⟩, ha, hfa⟩ := Option.bind_eq_some_iff.mp hb
  obtain ⟨hwithin, hidle⟩ := hm r a r₁ ha
  obtain ⟨hwithin', -⟩ := hf a a r₁ b r₂ hfa
  refine ⟨hwithin.trans hwithin', fun r'' hr'' => ?_⟩
  obtain ⟨a', ha'⟩ := hidle r'' (hwithin'.trans hr'')
  obtain ⟨b', hb'⟩ := (hf a a' r₁ b r₂ hfa).2 r'' hr''
  exact ⟨b', by rw [bind_apply, ha', Option.bind_some, hb']⟩

theorem mapM {f f' : α → Mapping β} (hf : ∀ a, IdleAfter (f a) (f' a)) (as : List α) :
    IdleAfter (as.mapM f) (as.mapM f') := by
  induction as with
  | nil => exact pure [] []
  | cons a as ih =>
      rw [List.mapM_cons, List.mapM_cons]
      exact (hf a).bind fun _ _ => ih.bind fun _ _ => pure _ _

end IdleAfter

/-! ## One step -/

section

variable {map : Mapper} (hmap : ∀ scope schema name position mediaType,
  IdleAfter (map scope schema name position mediaType)
    (Scope.mapNode scope schema name position mediaType))
include hmap

/-- A class that is declared stays declared, and any other reference is followed as before. -/
theorem idleAfter_mapReference (scope : Scope) (reference : String) :
    IdleAfter (mapReference map scope reference) (mapReference Scope.mapNode scope reference) := by
  intro r type r' h
  rw [mapReference_apply] at h
  -- In a registry with the class nothing is left to do; one without it grew from one without it.
  have hagain (r'' : Registry) (hrest : r''.contains (Name.pascal (segment reference)) = false →
        ∃ type', mapReference Scope.mapNode scope reference r'' = some (type', r'')) :
      ∃ type', mapReference Scope.mapNode scope reference r'' = some (type', r'') := by
    by_cases hcontains : r''.contains (Name.pascal (segment reference))
    · exact ⟨_, by rw [mapReference_apply, if_pos hcontains]⟩
    · exact hrest (Bool.eq_false_iff.mpr hcontains)
  by_cases hold : r.contains (Name.pascal (segment reference))
  · rw [if_pos hold] at h
    cases h
    refine ⟨.refl r, fun r'' hr'' => hagain r'' fun hnew => ?_⟩
    rw [hr''.contains hold] at hnew
    cases hnew
  rw [if_neg hold] at h
  by_cases hpending : Name.pascal (segment reference) ∈ scope.pending
  · rw [if_pos hpending] at h
    cases h
    refine ⟨.refl r, fun r'' _ => hagain r'' fun hnew => ⟨.any, ?_⟩⟩
    rw [mapReference_apply, hnew, if_neg Bool.false_ne_true, if_pos hpending]
  rw [if_neg hpending] at h
  cases htarget : scope.components.lookup (segment reference) with
  | none =>
      rw [htarget] at h
      cases h
      refine ⟨.refl r, fun r'' _ => hagain r'' fun hnew => ⟨.any, ?_⟩⟩
      rw [mapReference_apply, hnew, if_neg Bool.false_ne_true, if_neg hpending, htarget]
  | some target =>
      rw [htarget] at h
      obtain ⟨hwithin, hidle⟩ := hmap _ _ _ _ _ r type r' h
      refine ⟨hwithin, fun r'' hr'' => hagain r'' fun hnew => ?_⟩
      rw [mapReference_apply, hnew, if_neg Bool.false_ne_true, if_neg hpending, htarget]
      exact hidle r'' hr''

theorem idleAfter_mapUnion (scope : Scope) (branches : List Json) (name : String) :
    IdleAfter (mapUnion (map scope · · .field none) branches name)
      (mapUnion (Scope.mapNode scope · · .field none) branches name) := by
  refine (IdleAfter.mapM (fun _ => hmap _ _ _ _ _) _).bind fun types types' => ?_
  split <;> split <;> exact .pure _ _

/-- An object has a declared class, whether it was declared before or by its mapping. -/
theorem idleAfter_mapObject (scope : Scope) (node : Members) (name : String)
    (mediaType : Option String) :
    IdleAfter (mapObject (map scope · · .field none) node name mediaType)
      (mapObject (Scope.mapNode scope · · .field none) node name mediaType) := by
  intro r type r' h
  have hidle (r'' : Registry) (hcontains : r''.contains (Name.pascal name)) :
      ∃ type', mapObject (Scope.mapNode scope · · .field none) node name mediaType r'' =
        some (type', r'') := by
    refine ⟨.named (Name.pascal name), ?_⟩
    rw [mapObject, bind_apply, get_apply, Option.bind_some]
    simp only [hcontains, if_true]
    rfl
  by_cases hcontains : r.contains (Name.pascal name)
  · rw [mapObject, bind_apply, get_apply, Option.bind_some] at h
    simp only [hcontains, if_true] at h
    cases h
    exact ⟨.refl r, fun r'' hr'' => hidle r'' (hr''.contains hcontains)⟩
  · rw [mapObject_apply map scope node mediaType (Bool.eq_false_iff.mpr hcontains)] at h
    obtain ⟨⟨types, r₁⟩, htypes, hresult⟩ := Option.map_eq_some_iff.mp h
    cases hresult
    have hgrown : r.Within r₁ :=
      (IdleAfter.mapM (f := hintWith map scope) (fun e => hmap scope e.1 e.2 .field none) _
        r types r₁ htypes).1
    refine ⟨hgrown.trans (r₁.within_register _), fun r'' hr'' => hidle r'' (hr''.contains ?_)⟩
    have hdeclared := r₁.contains_register (recordOf node name mediaType types)
    rwa [name_recordOf] at hdeclared

theorem idleAfter_mapTagged (scope : Scope) (node : Members) (name : String) (position : Position)
    (mediaType : Option String) :
    IdleAfter (mapTagged (map scope · · .field none) node name position mediaType)
      (mapTagged (Scope.mapNode scope · · .field none) node name position mediaType) := by
  have hobject (type : TypeExpr) :
      IdleAfter (if (node.lookup "properties").isSome || position == .root then
          mapObject (map scope · · .field none) node name mediaType
        else pure type)
      (if (node.lookup "properties").isSome || position == .root then
          mapObject (Scope.mapNode scope · · .field none) node name mediaType
        else pure type) := by
    split
    · exact idleAfter_mapObject hmap scope node name mediaType
    · exact .pure _ _
  simp only [mapTagged]
  split
  · exact hobject .any
  · exact hobject .map
  · cases node.lookup "items" with
    | none => exact .pure _ _
    | some items => exact (hmap _ _ _ _ _).bind fun _ _ => .pure _ _
  · exact .pure _ _

/-- One step is idle after itself when the mapping of what it leads to is. -/
theorem idleAfter_mapStep (scope : Scope) (schema : Json) (name : String) (position : Position)
    (mediaType : Option String) :
    IdleAfter (mapStep map scope schema name position mediaType)
      (mapStep Scope.mapNode scope schema name position mediaType) := by
  cases schema with
  | obj node =>
      simp only [mapStep]
      split
      · exact idleAfter_mapReference hmap scope _
      · exact idleAfter_mapUnion hmap scope _ name
      · exact hmap _ _ _ _ _
      · exact idleAfter_mapTagged hmap scope node name position mediaType
  | null | bool _ | num _ | str _ | arr _ => exact .pure _ _

end

/-! ## Whole runs -/

/-- The mapping of a schema is idle after itself. -/
theorem idleAfter_mapNode (scope : Scope) (schema : Json) (name : String) (position : Position)
    (mediaType : Option String) :
    IdleAfter (Scope.mapNode scope schema name position mediaType)
      (Scope.mapNode scope schema name position mediaType) := by
  intro r type r' hresult
  refine Scope.mapNode.partial_correctness
    (fun scope schema name position mediaType r x => r.Within x.2 ∧ ∀ r'', x.2.Within r'' →
      ∃ b, Scope.mapNode scope schema name position mediaType r'' = some (b, r'')) ?_
    scope schema name position mediaType r (type, r') hresult
  intro map ih scope schema name position mediaType r x hstep
  have hidle := idleAfter_mapStep (fun scope schema name position mediaType r type r' h =>
    ih scope schema name position mediaType r (type, r') h) scope schema name position mediaType
  obtain ⟨hwithin, hagain⟩ := hidle r x.1 x.2 hstep
  refine ⟨hwithin, fun r'' hr'' => ?_⟩
  rw [Scope.mapNode]
  exact hagain r'' hr''

/-- Whatever is added, it is added behind what is there. -/
theorem keptByClasses_within (r : Registry) : KeptByClasses r.Within :=
  fun r' d _ hwithin => hwithin.trans (r'.within_register d)

/-- Every use of the mapping adds declarations behind those that are there, and changes none of these.
A schema that was mapped, at the top of a declaration or in a field, can be mapped again under its name,
and the registry stays as it is: right after the first mapping, and whatever has been added since. -/
theorem remapping_idle :
    (∀ (use : Use) (r r' : Registry) type, use.run r = some (type, r') →
      r.declarations <+: r'.declarations) ∧
    ∀ (components : Members) (schema : Json) (name : String) (r r' r'' : Registry) (type : TypeExpr),
      r'.declarations <+: r''.declarations →
        (mapRoot components schema name r = some (type, r') →
          ∃ type', mapRoot components schema name r'' = some (type', r'')) ∧
        (mapField components schema name r = some (type, r') →
          ∃ type', mapField components schema name r'' = some (type', r'')) := by
  refine ⟨fun use r r' type h => ?_, fun components schema name r r' r'' type hgrown => ⟨?_, ?_⟩⟩
  · exact keeps_run (keptByClasses_within r) use r type r' (Registry.Within.refl r) h
  · exact fun h => (idleAfter_mapNode _ schema name .root none r type r' h).2 r'' hgrown
  · exact fun h => (idleAfter_mapNode _ schema name .field none r type r' h).2 r'' hgrown

/-! ## A chain of nodes -/

/-- A component whose property refers to the component itself. -/
def chained : Members :=
  [("Node", .obj [("type", .str "object"), ("properties", .obj [("next", nodeReference)])])]

def chainedRecord : Declaration := .record "Node" none [.ofProperty "next" .any false none]

/-- The property is untyped while the component is being mapped. -/
theorem mapRoot_chained :
    mapRoot chained nodeReference "tree" {} = some (.named "Node", ⟨[chainedRecord]⟩) :=
  mapWithin_below 3 _ _ _ _ _ _ _ rfl

/-- When the component is declared, a second mapping finds its class and adds nothing. -/
theorem remapping_idle_chained :
    ∃ type, mapRoot chained nodeReference "tree" ⟨[chainedRecord]⟩ =
      some (type, ⟨[chainedRecord]⟩) :=
  (remapping_idle.2 chained nodeReference "tree" {} _ _ _ List.prefix_rfl).1 mapRoot_chained

end AgentCompiler.Schema
