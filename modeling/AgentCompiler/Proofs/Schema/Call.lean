import Mathlib.Data.List.Basic
import Mathlib.Data.List.Forall2
import AgentCompiler.Schema.Mapping

/-!
# Calls of the mapping

A call maps one schema in one registry. It makes further calls: for the component that a reference
leads to, or for the schemas nested in the one it maps, one after the other, each in the registry that
the one before has left. `Call.Makes` is this relation, and `result_eq_none_iff` says that a call has
no result exactly when one of the calls that it makes has none.
-/

namespace AgentCompiler.Schema

/-! ## Mapping lists -/

variable {α β γ : Type}

theorem pure_apply (a : α) (r : Registry) : (pure a : Mapping α) r = some (a, r) := rfl

theorem get_apply (r : Registry) : (get : Mapping Registry) r = some (r, r) := rfl

theorem bind_apply (m : Mapping α) (f : α → Mapping β) (r : Registry) :
    (m >>= f) r = (m r).bind fun x => f x.1 x.2 := rfl

/-- What is added is referred to by its name. -/
theorem declare_apply (d : Declaration) (r : Registry) :
    declare d r = some (.named d.name, r.register d) := rfl

/-- A list cannot be mapped exactly when there is a first item that cannot. -/
theorem mapM_eq_none_iff (f : α → Mapping β) (as : List α) (r : Registry) :
    as.mapM f r = none ↔ ∃ before a after bs r', as = before ++ a :: after ∧
      before.mapM f r = some (bs, r') ∧ f a r' = none := by
  induction as generalizing r with
  | nil => simp [pure_apply]
  | cons a as ih =>
      rw [List.mapM_cons]
      cases ha : f a r with
      | none =>
          simp only [bind_apply, ha, Option.bind_none, true_iff]
          exact ⟨[], a, as, [], r, rfl, rfl, ha⟩
      | some x =>
          obtain ⟨b, r₁⟩ := x
          have hrest : (f a >>= fun b => as.mapM f >>= fun bs => pure (b :: bs)) r = none ↔
              as.mapM f r₁ = none := by
            simp only [bind_apply, ha, Option.bind_some]
            cases as.mapM f r₁ <;> simp [pure_apply]
          rw [hrest, ih]
          constructor
          · rintro ⟨before, a', after, bs, r', rfl, hbefore, hnone⟩
            refine ⟨a :: before, a', after, b :: bs, r', rfl, ?_, hnone⟩
            rw [List.mapM_cons]
            simp only [bind_apply, ha, hbefore, Option.bind_some, pure_apply]
          · rintro ⟨before, a', after, bs, r', hsplit, hbefore, hnone⟩
            cases before with
            | nil =>
                obtain ⟨rfl, rfl⟩ := List.cons_eq_cons.mp hsplit
                simp only [List.mapM_nil, pure_apply, Option.some.injEq, Prod.mk.injEq]
                  at hbefore
                obtain ⟨-, rfl⟩ := hbefore
                rw [ha] at hnone
                cases hnone
            | cons a'' before =>
                obtain ⟨rfl, rfl⟩ := List.cons_eq_cons.mp hsplit
                rw [List.mapM_cons] at hbefore
                simp only [bind_apply, ha, Option.bind_some] at hbefore
                obtain ⟨⟨bs', r''⟩, htail, hpure⟩ := Option.bind_eq_some_iff.mp hbefore
                simp only [pure_apply, Option.some.injEq, Prod.mk.injEq] at hpure
                obtain ⟨-, rfl⟩ := hpure
                exact ⟨before, a', after, bs', r'', rfl, htail, hnone⟩

/-- Where a list can be mapped, the items before one can, and then this one. -/
theorem mapM_split {f : α → Mapping β} {before after : List α} {a : α} {r : Registry}
    (h : ((before ++ a :: after).mapM f r).isSome) :
    ∃ bs r', before.mapM f r = some (bs, r') ∧ (f a r').isSome := by
  cases hbefore : before.mapM f r with
  | none =>
      obtain ⟨first, a', rest, bs, r', rfl, hfirst, hnone⟩ :=
        (mapM_eq_none_iff f before r).mp hbefore
      rw [(mapM_eq_none_iff f _ r).mpr ⟨first, a', rest ++ a :: after, bs, r',
        by rw [List.append_assoc, List.cons_append], hfirst, hnone⟩] at h
      cases h
  | some x =>
      obtain ⟨bs, r'⟩ := x
      refine ⟨bs, r', rfl, ?_⟩
      by_contra hnone
      rw [Option.not_isSome_iff_eq_none] at hnone
      rw [(mapM_eq_none_iff f _ r).mpr ⟨before, a, after, bs, r', rfl, hbefore, hnone⟩] at h
      cases h

/-- Two lists are mapped together when they are mapped one after the other. -/
theorem mapM_append_eq_some {f : α → Mapping β} {as as' : List α} {cs : List β} {r r' : Registry} :
    (as ++ as').mapM f r = some (cs, r') ↔ ∃ bs r₁ bs', as.mapM f r = some (bs, r₁) ∧
      as'.mapM f r₁ = some (bs', r') ∧ cs = bs ++ bs' := by
  rw [List.mapM_append]
  constructor
  · intro h
    obtain ⟨⟨bs, r₁⟩, hbs, h⟩ := Option.bind_eq_some_iff.mp h
    obtain ⟨⟨bs', r₂⟩, hbs', h⟩ := Option.bind_eq_some_iff.mp h
    cases h
    exact ⟨bs, r₁, bs', hbs, hbs', rfl⟩
  · rintro ⟨bs, r₁, bs', hbs, hbs', rfl⟩
    simp only [bind_apply, hbs, hbs', Option.bind_some, pure_apply]

/-- What every step of a list ensures whatever the registry is ensured along the list. -/
theorem mapM_forall₂ {f : α → Mapping β} {R : α → β → Prop} {as : List α} {bs : List β}
    {r r' : Registry} (hf : ∀ a r b r', f a r = some (b, r') → R a b)
    (hrun : as.mapM f r = some (bs, r')) : List.Forall₂ R as bs := by
  induction as generalizing bs r with
  | nil =>
      cases hrun
      exact .nil
  | cons a as ih =>
      rw [List.mapM_cons] at hrun
      obtain ⟨⟨b, r₁⟩, hb, hrest⟩ := Option.bind_eq_some_iff.mp hrun
      obtain ⟨⟨bs', r₂⟩, hbs, hlist⟩ := Option.bind_eq_some_iff.mp hrest
      cases hlist
      exact .cons (hf a r b r₁ hb) (ih hbs)

/-- What is done with the results of the items can be done with the list of them. -/
theorem mapM_bind_pure (f : α → Mapping β) (g : α → β → γ) (as : List α) (r : Registry) :
    (as.mapM fun a => do let b ← f a; pure (g a b)) r =
      (as.mapM f r).map fun x => (List.zipWith g as x.1, x.2) := by
  induction as generalizing r with
  | nil => rfl
  | cons a as ih =>
      simp only [List.mapM_cons, bind_apply, pure_apply] at ih ⊢
      cases ha : f a r with
      | none => rfl
      | some x =>
          obtain ⟨b, r'⟩ := x
          simp only [Option.bind_some, ih]
          cases as.mapM f r' <;> rfl

/-- A step that always ends does not change whether there is a result. -/
theorem bind_isSome_iff {m : Mapping α} {f : α → Mapping β} (hf : ∀ a r, (f a r).isSome)
    (r : Registry) : ((m >>= f) r).isSome ↔ (m r).isSome := by
  simp only [bind_apply]
  cases m r with
  | none => simp
  | some x => simpa using hf x.1 x.2

/-! ## Nested schemas -/

/-- The schemas of the properties with the names for their declarations. They are mapped only when
the record that they are for is new. -/
def fieldSchemas (props : Members) (name : String) (r : Registry) : List (Json × String) :=
  if r.contains (Name.pascal name) then []
  else props.map fun (property, schema) => (schema, name ++ "_" ++ property)

/-- The schemas nested in one without references, and the names for their declarations: branches,
properties, properties of parts, items. -/
def nested (components node : Members) (name : String) (position : Position) (r : Registry) :
    List (Json × String) :=
  match branches? node, parts? node with
  | some branches, _ =>
    branches.zipIdx.map fun (branch, i) => (branch, name ++ "_option" ++ Decimal.natural (i + 1))
  | none, some parts => fieldSchemas (mergedProperties components parts) name r
  | none, none =>
    let fields :=
      if (node.lookup "properties").isSome || position == .root then
        fieldSchemas (properties (.obj node)) name r
      else []
    match typeTag node with
    | none => fields
    | some "object" => fields
    | some "array" => (node.lookup "items").toList.map fun items => (items, name ++ "_item")
    | some _ => []

/-- The mapping of a nested schema. -/
def hintWith (map : Mapper) (scope : Scope) (e : Json × String) : Mapping TypeExpr :=
  map scope e.1 e.2 .field none

/-- An object has a type exactly when the schemas of its fields have. -/
theorem mapObject_isSome_iff (map : Mapper) (scope : Scope) (node : Members) (name : String)
    (mediaType : Option String) (r : Registry) :
    (mapObject (map scope · · .field none) node name mediaType r).isSome ↔
      ((fieldSchemas (properties (.obj node)) name r).mapM (hintWith map scope) r).isSome := by
  rw [mapObject, fieldSchemas, bind_apply, get_apply, Option.bind_some]
  simp only
  by_cases hc : r.contains (Name.pascal name)
  · simp [hc, pure_apply]
  · simp only [hc, Bool.false_eq_true, if_false]
    rw [List.mapM_map]
    refine (bind_isSome_iff (fun _ _ => rfl) r).trans ?_
    have hfields := mapM_bind_pure
      (fun e : String × Json => map scope e.2 (name ++ "_" ++ e.1) .field none)
      (fun e type => Field.ofProperty e.1 type ((requiredNames node).contains e.1)
        (e.2.getString? "description")) (properties (.obj node)) r
    refine (congrArg (fun x => x.isSome = true) hfields).to_iff.trans ?_
    rw [Option.isSome_map]
    rfl

/-- A choice has a type exactly when its branches have. -/
theorem mapUnion_isSome_iff (map : Mapper) (scope : Scope) (branches : List Json) (name : String)
    (r : Registry) :
    (mapUnion (map scope · · .field none) branches name r).isSome ↔
      ((branches.zipIdx.map fun (branch, i) =>
        (branch, name ++ "_option" ++ Decimal.natural (i + 1))).mapM
          (hintWith map scope) r).isSome := by
  rw [mapUnion, List.mapM_map]
  refine bind_isSome_iff (fun types r => ?_) r
  generalize types.foldl (fun acc t => if acc.contains t then acc else acc ++ [t]) [] = distinct
  match distinct with
  | [] | [_] | _ :: _ :: _ => rfl

/-- An array has a type exactly when the schema of its items has. -/
theorem mapItems_isSome_iff (map : Mapper) (scope : Scope) (items : Option Json) (name : String)
    (r : Registry) :
    (mapItems (map scope · · .field none) items name r).isSome ↔
      ((items.toList.map fun schema => (schema, name ++ "_item")).mapM
        (hintWith map scope) r).isSome := by
  cases items with
  | none => simp [mapItems, pure_apply]
  | some schema =>
      refine (bind_isSome_iff (fun _ _ => rfl) r).trans ?_
      simp only [Option.toList_some, List.map_cons, List.map_nil, List.mapM_cons, List.mapM_nil]
      exact (bind_isSome_iff (fun _ _ => rfl) r).symm

/-- A schema with a type tag has a type exactly when the schemas of its fields or items have. -/
theorem mapTagged_isSome_iff (map : Mapper) (scope : Scope) (node : Members) (name : String)
    (position : Position) (mediaType : Option String) (r : Registry)
    (hbranches : branches? node = none) (hparts : parts? node = none) :
    (mapTagged (map scope · · .field none) node name position mediaType r).isSome ↔
      ((nested scope.components node name position r).mapM (hintWith map scope) r).isSome := by
  have hnothing (type : TypeExpr) : ((pure type : Mapping TypeExpr) r).isSome ↔
      (([] : List (Json × String)).mapM (hintWith map scope) r).isSome := Iff.rfl
  -- The same for a schema without a tag and for an object: it becomes a record, or it does not.
  have hobject (type : TypeExpr) :
      ((if (node.lookup "properties").isSome || position == .root then
          mapObject (map scope · · .field none) node name mediaType
        else pure type : Mapping TypeExpr) r).isSome ↔
      ((if (node.lookup "properties").isSome || position == .root then
          fieldSchemas (properties (.obj node)) name r
        else []).mapM (hintWith map scope) r).isSome := by
    by_cases hrecord : ((node.lookup "properties").isSome || position == .root) = true
    · rw [if_pos hrecord, if_pos hrecord]
      exact mapObject_isSome_iff map scope node name mediaType r
    · rw [if_neg hrecord, if_neg hrecord]
      exact hnothing type
  cases htag : typeTag node with
  | none =>
      simp only [nested, hbranches, hparts, mapTagged, htag]
      exact hobject .any
  | some tag =>
      simp only [nested, hbranches, hparts, mapTagged, htag]
      by_cases hobjectTag : tag = "object"
      · subst hobjectTag
        exact hobject .map
      · by_cases harrayTag : tag = "array"
        · subst harrayTag
          exact mapItems_isSome_iff map scope _ name r
        · simp only
          exact hnothing _

/-- One step from a schema without a reference has a result exactly when the mapping of the nested
schemas has, unless the parts of the schema are merged first. -/
theorem mapStep_isSome_iff (map : Mapper) (scope : Scope) (node : Members) (name : String)
    (position : Position) (mediaType : Option String) (r : Registry)
    (href : reference? node = none) (hparts : branches? node = none → parts? node = none) :
    (mapStep map scope (.obj node) name position mediaType r).isSome ↔
      ((nested scope.components node name position r).mapM (hintWith map scope) r).isSome := by
  simp only [mapStep, href]
  cases hbranches : branches? node with
  | none =>
      simp only [hparts hbranches]
      exact mapTagged_isSome_iff map scope node name position mediaType r hbranches
        (hparts hbranches)
  | some branches =>
      simp only [nested, hbranches]
      exact mapUnion_isSome_iff map scope branches name r

/-- A reference is mapped by the registry, the pending classes and the components, in this order. -/
theorem mapReference_apply (map : Mapper) (scope : Scope) (reference : String) (r : Registry) :
    mapReference map scope reference r =
      if r.contains (Name.pascal (segment reference)) then
        some (.named (Name.pascal (segment reference)), r)
      else if Name.pascal (segment reference) ∈ scope.pending then some (.any, r)
      else match scope.components.lookup (segment reference) with
        | none => some (.any, r)
        | some target =>
          map { scope with pending := Name.pascal (segment reference) :: scope.pending } target
            (segment reference) .root none r := by
  unfold mapReference
  simp only [bind, StateT.bind, get, getThe, MonadStateOf.get, StateT.get, pure, Option.bind_some,
    List.contains_eq_mem, decide_eq_true_eq]
  split
  · rfl
  split
  · rfl
  cases scope.components.lookup (segment reference) <;> rfl

/-- A schema with a reference is mapped as its reference. -/
theorem mapStep_reference (map : Mapper) (scope : Scope) {node : Members} {reference : String}
    (name : String) (position : Position) (mediaType : Option String)
    (href : reference? node = some reference) :
    mapStep map scope (.obj node) name position mediaType = mapReference map scope reference := by
  simp only [mapStep, href]

/-! ## Merged schemas -/

variable (components node : Members) (parts : List Json)

theorem reference?_merge : reference? (merge components node parts) = none := by
  cases h : node.lookup "description" <;> simp [merge, reference?, h, Table.lookup_cons]

theorem branches?_merge : branches? (merge components node parts) = none := by
  cases h : node.lookup "description" <;> simp [merge, branches?, h, Table.lookup_cons]

theorem parts?_merge : parts? (merge components node parts) = none := by
  cases h : node.lookup "description" <;> simp [merge, parts?, h, Table.lookup_cons]

theorem typeTag_merge : typeTag (merge components node parts) = some "object" := by
  simp [merge, typeTag]

theorem lookup_properties_merge :
    (merge components node parts).lookup "properties" =
      some (.obj (mergedProperties components parts)) := by
  cases h : node.lookup "description" <;> simp [merge, h, Table.lookup_cons]

theorem properties_merge :
    properties (.obj (merge components node parts)) = mergedProperties components parts := by
  rw [properties, Json.getMembers?, Json.get?, lookup_properties_merge]
  rfl

/-- What is nested in the merged schema is what is nested in the schema that is merged. -/
theorem nested_merge (name : String) (position : Position) (r : Registry)
    (hbranches : branches? node = none) (hparts : parts? node = some parts) :
    nested components (merge components node parts) name position r =
      nested components node name position r := by
  simp only [nested, branches?_merge, parts?_merge, typeTag_merge, lookup_properties_merge,
    properties_merge, hbranches, hparts, Option.isSome_some, Bool.true_or, if_true]

/-- A schema without a reference has a type exactly when the schemas nested in it have. -/
theorem mapNode_isSome_iff (scope : Scope) (name : String) (position : Position)
    (mediaType : Option String) (r : Registry) (href : reference? node = none) :
    (Scope.mapNode scope (.obj node) name position mediaType r).isSome ↔
      ((nested scope.components node name position r).mapM
        (hintWith Scope.mapNode scope) r).isSome := by
  by_cases hmerged : branches? node = none → parts? node = none
  · rw [Scope.mapNode]
    exact mapStep_isSome_iff Scope.mapNode scope node name position mediaType r href hmerged
  · obtain ⟨hbranches, hne⟩ := Classical.not_imp.mp hmerged
    obtain ⟨parts, hparts⟩ := Option.ne_none_iff_exists'.mp hne
    rw [Scope.mapNode, mapStep]
    simp only [href, hbranches, hparts]
    rw [Scope.mapNode, ← nested_merge scope.components node parts name position r hbranches hparts]
    exact mapStep_isSome_iff Scope.mapNode scope _ name position mediaType r
      (reference?_merge scope.components node parts)
      (fun _ => parts?_merge scope.components node parts)

/-! ## Calls -/

/-- A call of the mapping: the classes that are being mapped, the schema with its name, position and
media type, and the registry. -/
structure Call where
  pending : List String
  schema : Json
  name : String
  position : Position
  mediaType : Option String
  registry : Registry

namespace Call

/-- The result of a call; none when the call does not end. -/
def result (components : Members) (c : Call) : Option (TypeExpr × Registry) :=
  Scope.mapNode ⟨components, c.pending⟩ c.schema c.name c.position c.mediaType c.registry

/-- One call makes another. -/
inductive Makes (components : Members) (c : Call) : Call → Prop
  /-- For the component of a reference, whose class is neither declared nor being mapped. -/
  | follow {node : Members} {reference : String} {target : Json}
      (hschema : c.schema = .obj node) (href : reference? node = some reference)
      (hnew : c.registry.contains (Name.pascal (segment reference)) = false)
      (hpending : Name.pascal (segment reference) ∉ c.pending)
      (htarget : components.lookup (segment reference) = some target) :
      Makes components c ⟨Name.pascal (segment reference) :: c.pending, target, segment reference,
        .root, none, c.registry⟩
  /-- For a nested schema, in the registry that the mapping of those before it leaves. -/
  | nested {node : Members} {before after : List (Json × String)} {schema : Json} {name : String}
      {types : List TypeExpr} {registry : Registry}
      (hschema : c.schema = .obj node) (href : reference? node = none)
      (hnested : Schema.nested components node c.name c.position c.registry =
        before ++ (schema, name) :: after)
      (hbefore : before.mapM (hintWith Scope.mapNode ⟨components, c.pending⟩) c.registry =
        some (types, registry)) :
      Makes components c ⟨c.pending, schema, name, .field, none, registry⟩

variable {components}

/-- A call without a result makes a call without a result. -/
theorem exists_makes_of_result_eq_none {c : Call} (h : c.result components = none) :
    ∃ c', Makes components c c' ∧ c'.result components = none := by
  obtain ⟨pending, schema, name, position, mediaType, registry⟩ := c
  cases schema with
  | null | bool _ | num _ | str _ | arr _ =>
      rw [result, Scope.mapNode] at h
      cases h
  | obj node =>
      cases href : reference? node with
      | some reference =>
          rw [result, Scope.mapNode, mapStep_reference _ _ _ _ _ href, mapReference_apply] at h
          split at h
          · cases h
          split at h
          · cases h
          split at h
          · cases h
          · next hnew hpending _ target htarget =>
              exact ⟨_, .follow rfl href (Bool.eq_false_iff.mpr hnew) hpending htarget, h⟩
      | none =>
          have hmapM : (Schema.nested components node name position registry).mapM
              (hintWith Scope.mapNode ⟨components, pending⟩) registry = none := by
            rw [← Option.not_isSome_iff_eq_none,
              ← mapNode_isSome_iff node ⟨components, pending⟩ name position mediaType registry href,
              Option.not_isSome_iff_eq_none]
            exact h
          obtain ⟨before, ⟨schema, name'⟩, after, types, r, hnested, hbefore, hnone⟩ :=
            (mapM_eq_none_iff _ _ _).mp hmapM
          exact ⟨_, .nested rfl href hnested hbefore, hnone⟩

/-- A call has a result when no chain of calls from it is endless. -/
theorem result_isSome_of_acc {c : Call} (h : Acc (fun c' c => Makes components c c') c) :
    (c.result components).isSome := by
  induction h with
  | intro c _ ih =>
      by_contra hnone
      obtain ⟨c', hmakes, hnone'⟩ :=
        exists_makes_of_result_eq_none (Option.not_isSome_iff_eq_none.mp hnone)
      have hsome := ih c' hmakes
      rw [hnone'] at hsome
      cases hsome

/-- Calls that map the same pending classes make the same calls when the same schemas are nested in
theirs. -/
theorem acc_merge {pending : List String} {node : Members} {parts : List Json} {name : String}
    {position : Position} {mediaType mediaType' : Option String} {registry : Registry}
    (href : reference? node = none) (hbranches : branches? node = none)
    (hparts : parts? node = some parts)
    (h : Acc (fun c' c => Makes components c c')
      ⟨pending, .obj (merge components node parts), name, position, mediaType, registry⟩) :
    Acc (fun c' c => Makes components c c')
      ⟨pending, .obj node, name, position, mediaType', registry⟩ := by
  refine Acc.intro _ fun c' hmakes => h.inv ?_
  cases hmakes with
  | follow hschema href' =>
      cases hschema
      rw [href] at href'
      cases href'
  | nested hschema _ hnested hbefore =>
      cases hschema
      rw [← nested_merge components node parts name position registry hbranches hparts] at hnested
      exact .nested rfl (reference?_merge components node parts) hnested hbefore

/-- Every result of a mapper is one of the mapping, whose call starts no endless chain. -/
def Settles (map : Mapper) : Prop :=
  ∀ scope schema name position mediaType registry x,
    map scope schema name position mediaType registry = some x →
      Scope.mapNode scope schema name position mediaType registry = some x ∧
        Acc (fun c' c => Makes scope.components c c')
          ⟨scope.pending, schema, name, position, mediaType, registry⟩

namespace Settles

variable {map : Mapper} (hmap : Settles map)
include hmap

theorem below (scope : Scope) (schema : Json) (name : String) (position : Position)
    (mediaType : Option String) : Below (map scope schema name position mediaType)
      (Scope.mapNode scope schema name position mediaType) :=
  fun r x hx => (hmap _ _ _ _ _ r x hx).1

/-- A reference that has a type is followed at most once. -/
theorem acc_reference {scope : Scope} {node : Members} {reference : String} (name : String)
    (position : Position) (mediaType : Option String) {registry : Registry}
    {x : TypeExpr × Registry} (href : reference? node = some reference)
    (h : mapReference map scope reference registry = some x) :
    Acc (fun c' c => Makes scope.components c c')
      ⟨scope.pending, .obj node, name, position, mediaType, registry⟩ := by
  rw [mapReference_apply] at h
  refine Acc.intro _ fun c' hmakes => ?_
  cases hmakes with
  | follow hschema href' hnew hpending htarget =>
      cases hschema
      obtain rfl := Option.some.inj (href.symm.trans href')
      simp only [hnew, hpending, htarget, Bool.false_eq_true, if_false] at h
      exact (hmap _ _ _ _ _ _ _ h).2
  | nested hschema href' =>
      cases hschema
      rw [href] at href'
      cases href'

/-- Where the nested schemas can be mapped, each of them is mapped by a call without endless chains. -/
theorem acc_nested {scope : Scope} {node : Members} (name : String) (position : Position)
    (mediaType : Option String) {registry : Registry} (href : reference? node = none)
    (h : ((Schema.nested scope.components node name position registry).mapM
      (hintWith map scope) registry).isSome) :
    Acc (fun c' c => Makes scope.components c c')
      ⟨scope.pending, .obj node, name, position, mediaType, registry⟩ := by
  refine Acc.intro _ fun c' hmakes => ?_
  cases hmakes with
  | follow hschema href' =>
      cases hschema
      rw [href] at href'
      cases href'
  | nested hschema _ hnested hbefore =>
      cases hschema
      rw [hnested] at h
      obtain ⟨types, r, hfirst, hlast⟩ := mapM_split h
      -- The schemas before leave the registry that the call is made in.
      have hsame := Below.mapM (fun e => hmap.below _ _ _ _ _) _ _ _ hfirst
      obtain ⟨rfl, rfl⟩ := Prod.mk.inj (Option.some.inj (hsame.symm.trans hbefore))
      obtain ⟨y, hy⟩ := Option.isSome_iff_exists.mp hlast
      exact (hmap _ _ _ _ _ _ _ hy).2

/-- A schema that one step maps starts no endless chain. -/
theorem acc_step {scope : Scope} {schema : Json} {name : String} {position : Position}
    {mediaType : Option String} {registry : Registry} {x : TypeExpr × Registry}
    (h : mapStep map scope schema name position mediaType registry = some x) :
    Acc (fun c' c => Makes scope.components c c')
      ⟨scope.pending, schema, name, position, mediaType, registry⟩ := by
  cases schema with
  | null | bool _ | num _ | str _ | arr _ =>
      refine Acc.intro _ fun c' hmakes => ?_
      cases hmakes <;> contradiction
  | obj node =>
      cases href : reference? node with
      | some reference =>
          rw [mapStep_reference _ _ _ _ _ href] at h
          exact hmap.acc_reference _ _ _ href h
      | none =>
          by_cases hmerged : branches? node = none → parts? node = none
          · exact hmap.acc_nested _ _ _ href ((mapStep_isSome_iff map scope node name position
              mediaType registry href hmerged).mp (Option.isSome_iff_exists.mpr ⟨x, h⟩))
          · obtain ⟨hbranches, hne⟩ := Classical.not_imp.mp hmerged
            obtain ⟨parts, hparts⟩ := Option.ne_none_iff_exists'.mp hne
            simp only [mapStep, href, hbranches, hparts] at h
            exact acc_merge href hbranches hparts (hmap _ _ _ _ _ _ _ h).2

end Settles

/-- No chain of calls from a call with a result is endless. -/
theorem acc_of_result {c : Call} (h : (c.result components).isSome) :
    Acc (fun c' c => Makes components c c') c := by
  obtain ⟨x, hx⟩ := Option.isSome_iff_exists.mp h
  have hrun := Scope.mapNode.partial_correctness
    (fun scope schema name position mediaType registry x =>
      Scope.mapNode scope schema name position mediaType registry = some x ∧
        Acc (fun c' c => Makes scope.components c c')
          ⟨scope.pending, schema, name, position, mediaType, registry⟩) ?_
    _ _ _ _ _ _ _ hx
  · exact hrun.2
  · intro map hmap scope schema name position mediaType registry x hstep
    have hresult : Scope.mapNode scope schema name position mediaType registry = some x := by
      rw [Scope.mapNode]
      exact mapStep_below (Settles.below hmap) _ _ _ _ _ _ _ hstep
    exact ⟨hresult, Settles.acc_step hmap hstep⟩

end Call

end AgentCompiler.Schema
