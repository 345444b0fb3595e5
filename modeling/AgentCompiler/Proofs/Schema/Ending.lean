import Mathlib.Data.Set.Finite.List
import Mathlib.Logic.Relation
import Mathlib.Order.Filter.AtTopBot.Basic
import Mathlib.Order.Filter.Finite
import Mathlib.Order.WellFounded
import AgentCompiler.Proofs.Schema.Call
import AgentCompiler.Proofs.Tool.Plan

/-!
# Where the mapping ends

A reference to a class that is being mapped is untyped, so no chain of calls follows references
forever. The parts of `allOf` have no such guard. A chain of calls is endless exactly when it takes
properties out of one component again and again, and the mapping of a schema ends exactly when no such
chain starts at it.
-/

namespace AgentCompiler.Schema

open Filter Relation

/-! ## Inside one component -/

/-- One schema leads to another without leaving the component: to a branch, to the items, to a
property, or to a property of a part that is no component. -/
inductive Leads (components : Members) : Json → Json → Prop
  | branch {node : Members} {branches : List Json} {schema : Json}
      (hbranches : branches? node = some branches) (hschema : schema ∈ branches) :
      Leads components (.obj node) schema
  | items {node : Members} {schema : Json} (hitems : node.lookup "items" = some schema) :
      Leads components (.obj node) schema
  | property {node : Members} {property : String} {schema : Json}
      (hproperty : (property, schema) ∈ properties (.obj node)) :
      Leads components (.obj node) schema
  | part {node : Members} {parts : List Json} {p schema : Json} {property : String}
      (hparts : parts? node = some parts) (hp : p ∈ parts) (hpart : part components p = p)
      (hproperty : (property, schema) ∈ properties p) :
      Leads components (.obj node) schema

/-- A schema has a component among the parts that are merged for it. -/
inductive Merges : Json → String → Prop
  | part {node : Members} {parts : List Json} {p : Json} {reference : String}
      (href : reference? node = none) (hbranches : branches? node = none)
      (hparts : parts? node = some parts) (hp : p ∈ parts)
      (hpart : p.getString? "$ref" = some reference) :
      Merges (.obj node) (segment reference)

/-- The schema of a property of a component. -/
def PropertyOf (components : Members) (key : String) (schema : Json) : Prop :=
  ∃ target property, components.lookup key = some target ∧ (property, schema) ∈ properties target

/-- One component has another one merged somewhere inside it. -/
def Embeds (components : Members) (key key' : String) : Prop :=
  ∃ property schema, PropertyOf components key property ∧
    ReflTransGen (Leads components) property schema ∧ Merges schema key'

/-- A member of an object is smaller than the object. -/
theorem sizeOf_lt_of_lookup {node : Members} {key : String} {schema : Json}
    (h : node.lookup key = some schema) : sizeOf schema < sizeOf (Json.obj node) := by
  induction node with
  | nil => cases h
  | cons e node ih =>
      obtain ⟨k, v⟩ := e
      rw [Table.lookup_cons] at h
      split at h
      · obtain rfl := Option.some.inj h
        simp only [Json.obj.sizeOf_spec, List.cons.sizeOf_spec, Prod.mk.sizeOf_spec]
        omega
      · have hlt := ih h
        simp only [Json.obj.sizeOf_spec, List.cons.sizeOf_spec, Prod.mk.sizeOf_spec] at hlt ⊢
        omega

/-- An item of an array is smaller than the array. -/
theorem sizeOf_lt_of_items {j : Json} {items : List Json} {schema : Json}
    (h : j.items? = some items) (hschema : schema ∈ items) : sizeOf schema < sizeOf j := by
  cases j with
  | arr xs =>
      obtain rfl := Option.some.inj h
      have hlt := List.sizeOf_lt_of_mem hschema
      simp only [Json.arr.sizeOf_spec]
      omega
  | null | bool _ | num _ | str _ | obj _ => cases h

/-- The schema of a property is smaller than the schema that has it. -/
theorem sizeOf_lt_of_property {j schema : Json} {property : String}
    (h : (property, schema) ∈ properties j) : sizeOf schema < sizeOf j := by
  cases j with
  | obj node =>
      simp only [properties, Json.getMembers?, Json.get?] at h
      cases hprops : node.lookup "properties" with
      | none => simp [hprops] at h
      | some v =>
          have hv := sizeOf_lt_of_lookup hprops
          rw [hprops] at h
          cases v with
          | obj props =>
              have hlt : sizeOf (property, schema) < sizeOf props := List.sizeOf_lt_of_mem h
              simp only [Prod.mk.sizeOf_spec] at hlt
              simp only [Json.obj.sizeOf_spec] at hv ⊢
              omega
          | null | bool _ | num _ | str _ | arr _ => cases h
  | null | bool _ | num _ | str _ | arr _ => cases h

/-- The items found under a key are smaller than the object. -/
theorem sizeOf_lt_of_lookup_items {node : Members} {key : String} {items : List Json}
    {schema : Json} (h : (node.lookup key).bind Json.items? = some items)
    (hschema : schema ∈ items) : sizeOf schema < sizeOf (Json.obj node) := by
  obtain ⟨j, hj, hitems⟩ := Option.bind_eq_some_iff.mp h
  exact (sizeOf_lt_of_items hitems hschema).trans (sizeOf_lt_of_lookup hj)

/-- Inside one component schemas get smaller. -/
theorem Leads.sizeOf_lt {components : Members} {schema schema' : Json}
    (h : Leads components schema schema') : sizeOf schema' < sizeOf schema := by
  cases h with
  | branch hbranches hschema =>
      rw [branches?, Option.orElse_eq_orElse, Option.orElse_eq_or, Option.or_eq_some_iff]
        at hbranches
      rcases hbranches with hany | ⟨-, hone⟩
      · exact sizeOf_lt_of_lookup_items hany hschema
      · exact sizeOf_lt_of_lookup_items hone hschema
  | items hitems => exact sizeOf_lt_of_lookup hitems
  | property hproperty => exact sizeOf_lt_of_property hproperty
  | part hparts hp _ hproperty =>
      exact (sizeOf_lt_of_property hproperty).trans (sizeOf_lt_of_lookup_items hparts hp)

/-- A missing member that is added was there or is one of those to add. -/
theorem mem_addMissing {e : String × Json} {ms more : Members} (h : e ∈ addMissing ms more) :
    e ∈ ms ∨ e ∈ more := by
  induction more generalizing ms with
  | nil => exact .inl h
  | cons x more ih =>
      obtain ⟨k, v⟩ := x
      rcases ih h with hms | hmore
      · simp only at hms
        split at hms
        · exact .inl hms
        · rcases List.mem_append.mp hms with hms | hx
          · exact .inl hms
          · exact .inr (List.mem_cons.mpr (.inl (List.mem_singleton.mp hx)))
      · exact .inr (List.mem_cons_of_mem _ hmore)

/-- A merged property is a property of one of the parts. -/
theorem mem_mergedProperties {components : Members} {parts : List Json} {e : String × Json}
    (h : e ∈ mergedProperties components parts) :
    ∃ p ∈ parts, e ∈ properties (part components p) := by
  have hfold (ps : List Json) (ms : Members)
      (h : e ∈ ps.foldl (fun acc p => addMissing acc (properties p)) ms) :
      e ∈ ms ∨ ∃ p ∈ ps, e ∈ properties p := by
    induction ps generalizing ms with
    | nil => exact .inl h
    | cons p ps ih =>
        rcases ih _ h with hms | ⟨q, hq, he⟩
        · rcases mem_addMissing hms with hms | hp
          · exact .inl hms
          · exact .inr ⟨p, List.mem_cons_self, hp⟩
        · exact .inr ⟨q, List.mem_cons_of_mem _ hq, he⟩
  rcases hfold _ _ h with hnil | ⟨q, hq, he⟩
  · cases hnil
  · obtain ⟨p, hp, rfl⟩ := List.mem_map.mp hq
    exact ⟨p, hp, he⟩

/-- A schema whose field is mapped is the schema of a property. -/
theorem mem_fieldSchemas {e : Json × String} {props : Members} {name : String} {r : Registry}
    (h : e ∈ fieldSchemas props name r) : ∃ property, (property, e.1) ∈ props := by
  rw [fieldSchemas] at h
  split at h
  · cases h
  · obtain ⟨⟨property, schema⟩, hmem, rfl⟩ := List.mem_map.mp h
    exact ⟨property, hmem⟩

/-- A merged property lies inside the component, or is a property of a component that is merged. -/
theorem leads_or_merges {components node : Members} {parts : List Json} {property : String}
    {schema : Json} (href : reference? node = none) (hbranches : branches? node = none)
    (hparts : parts? node = some parts)
    (hproperty : (property, schema) ∈ mergedProperties components parts) :
    Leads components (.obj node) schema ∨
      ∃ key, Merges (.obj node) key ∧ PropertyOf components key schema := by
  obtain ⟨p, hp, hmem⟩ := mem_mergedProperties hproperty
  have hitself (hpart : part components p = p) : Leads components (.obj node) schema :=
    .part hparts hp hpart (by rwa [hpart] at hmem)
  cases hpart : p.getString? "$ref" with
  | none => exact .inl (hitself (by rw [part, hpart]))
  | some reference =>
      cases htarget : components.lookup (segment reference) with
      | none => exact .inl (hitself (by simp only [part, hpart, htarget, Option.getD_none]))
      | some target =>
          simp only [part, hpart, htarget, Option.getD_some] at hmem
          exact .inr ⟨segment reference, .part href hbranches hparts hp hpart,
            target, property, htarget, hmem⟩

/-- What is nested in a schema lies inside the component, or is a property of a component that is
merged. -/
theorem mem_nested {components node : Members} {name : String} {position : Position}
    {r : Registry} {e : Json × String} (href : reference? node = none)
    (h : e ∈ nested components node name position r) :
    Leads components (.obj node) e.1 ∨
      ∃ key, Merges (.obj node) key ∧ PropertyOf components key e.1 := by
  have hfields {cond : Bool}
      (hf : e ∈ if cond then fieldSchemas (properties (.obj node)) name r else []) :
      Leads components (.obj node) e.1 := by
    split at hf
    · obtain ⟨property, hproperty⟩ := mem_fieldSchemas hf
      exact .property hproperty
    · cases hf
  simp only [nested] at h
  cases hbranches : branches? node with
  | some branches =>
      simp only [hbranches] at h
      obtain ⟨⟨schema, i⟩, hmem, rfl⟩ := List.mem_map.mp h
      exact .inl (.branch hbranches (List.fst_mem_of_mem_zipIdx hmem))
  | none =>
      cases hparts : parts? node with
      | some parts =>
          simp only [hbranches, hparts] at h
          obtain ⟨property, hproperty⟩ := mem_fieldSchemas h
          exact leads_or_merges href hbranches hparts hproperty
      | none =>
          simp only [hbranches, hparts] at h
          split at h
          · exact .inl (hfields h)
          · exact .inl (hfields h)
          · obtain ⟨schema, hitems, rfl⟩ := List.mem_map.mp h
            exact .inl (.items (Option.mem_toList.mp hitems))
          · cases h

/-! ## Endless chains -/

/-- A new name among the pending ones leaves fewer names that are not pending. -/
theorem length_filter_notMem_lt {names pending : List String} {name : String} (hmem : name ∈ names)
    (hnew : name ∉ pending) :
    (names.filter (· ∉ name :: pending)).length < (names.filter (· ∉ pending)).length := by
  have hfilter : names.filter (· ∉ name :: pending) =
      (names.filter (· ∉ pending)).filter (· ≠ name) := by
    simp only [List.filter_filter, List.mem_cons, not_or, Bool.decide_and]
  have hleft : name ∈ names.filter (· ∉ pending) := List.mem_filter.mpr ⟨hmem, by simpa using hnew⟩
  rw [hfilter]
  exact List.length_filter_lt_length_iff_exists.mpr ⟨name, hleft, by simp⟩

namespace Call

/-- A call merges a component, and makes a call for one of its properties. -/
def TakenFrom (components : Members) (key : String) (c c' : Call) : Prop :=
  Merges c.schema key ∧ PropertyOf components key c'.schema

/-- From a call on, calls are made without end: at some point no more reference is followed, and one
component is merged again and again. -/
def MergesForever (components : Members) (c : Call) : Prop :=
  ∃ chain : ℕ → Call, chain 0 = c ∧ (∀ n, Makes components (chain n) (chain (n + 1))) ∧
    (∀ᶠ n in atTop, (chain (n + 1)).pending = (chain n).pending) ∧
    ∃ key, ∃ᶠ n in atTop, TakenFrom components key (chain n) (chain (n + 1))

variable {components : Members}

/-- The classes of components that are not being mapped. Following a reference uses one up. -/
def fresh (components : Members) (c : Call) : List String :=
  (components.map fun e => Name.pascal e.1).filter (· ∉ c.pending)

/-- A call that is made follows a reference, or stays inside the component, or takes a property out
of a component that is merged. -/
theorem Makes.follows_or_stays {c c' : Call} (h : Makes components c c') :
    (fresh components c').length < (fresh components c).length ∨
      c'.pending = c.pending ∧
        (Leads components c.schema c'.schema ∨ ∃ key, TakenFrom components key c c') := by
  cases h with
  | @follow node reference target _ _ _ hpending htarget =>
      left
      have hmem : (segment reference, target) ∈ components := Table.mem_of_lookup htarget
      exact length_filter_notMem_lt (List.mem_map.mpr ⟨_, hmem, rfl⟩) hpending
  | @nested node before after schema name types registry hschema href hnested _ =>
      right
      refine ⟨rfl, ?_⟩
      simp only [TakenFrom, hschema]
      exact mem_nested href (hnested ▸ List.mem_append_right before List.mem_cons_self)

/-- In an endless chain no more reference is followed from some call on. -/
theorem exists_stays {chain : ℕ → Call} (hchain : ∀ n, Makes components (chain n) (chain (n + 1))) :
    ∃ start, ∀ n ≥ start, (chain (n + 1)).pending = (chain n).pending ∧
      (Leads components (chain n).schema (chain (n + 1)).schema ∨
        ∃ key, TakenFrom components key (chain n) (chain (n + 1))) := by
  -- Following a reference uses up a fresh class, so their number is least from some call on.
  let size n := (fresh components (chain n)).length
  have hanti : Antitone size := antitone_nat_of_succ_le fun n => by
    rcases (hchain n).follows_or_stays with hlt | ⟨hpending, -⟩
    · exact hlt.le
    · simp only [size, fresh, hpending, le_refl]
  obtain ⟨start, hmin⟩ : ∃ start, ∀ n, size start ≤ size n :=
    ⟨Function.argmin size, fun n => Function.argmin_le size n⟩
  refine ⟨start, fun n hn => (hchain n).follows_or_stays.resolve_left fun hlt => ?_⟩
  have hle := hanti hn
  have hge := hmin (n + 1)
  simp only [size] at hle hge
  omega

/-- An endless chain takes properties out of one component again and again. -/
theorem exists_frequently_takenFrom {chain : ℕ → Call} {start : ℕ}
    (hstays : ∀ n ≥ start, Leads components (chain n).schema (chain (n + 1)).schema ∨
      ∃ key, TakenFrom components key (chain n) (chain (n + 1))) :
    ∃ key, ∃ᶠ n in atTop, TakenFrom components key (chain n) (chain (n + 1)) := by
  by_contra hnone
  simp only [not_exists, not_frequently] at hnone
  have hnever : ∀ᶠ n in atTop, ∀ key ∈ {key | key ∈ components.map Prod.fst},
      ¬TakenFrom components key (chain n) (chain (n + 1)) :=
    (eventually_all_finite (List.finite_toSet _)).mpr fun key _ => hnone key
  obtain ⟨bound, hbound⟩ := eventually_atTop.mp hnever
  -- Beyond the bound every call stays inside one component, and the schemas get smaller.
  let size k := sizeOf (chain (max start bound + k)).schema
  have hdecreasing k : size (k + 1) < size k := by
    have hn : start ≤ max start bound + k ∧ bound ≤ max start bound + k := by omega
    rcases hstays _ hn.1 with hleads | ⟨key, htaken⟩
    · exact hleads.sizeOf_lt
    · obtain ⟨target, property, htarget, -⟩ := htaken.2
      exact absurd htaken (hbound _ hn.2 key
        (List.mem_map.mpr ⟨_, Table.mem_of_lookup htarget, rfl⟩))
  exact absurd (Function.argmin_le size (Function.argmin size + 1)) (hdecreasing _).not_ge

/-- What is mapped after a property was taken out of a component lies in one that is embedded there. -/
theorem exists_embedded {chain : ℕ → Call} {start n : ℕ} {key : String}
    (hstays : ∀ n ≥ start, Leads components (chain n).schema (chain (n + 1)).schema ∨
      ∃ key, TakenFrom components key (chain n) (chain (n + 1)))
    (hstart : start ≤ n) (htaken : TakenFrom components key (chain n) (chain (n + 1))) (m : ℕ)
    (hm : n + 1 ≤ m) :
    ∃ key' property, ReflTransGen (Embeds components) key key' ∧
      PropertyOf components key' property ∧
      ReflTransGen (Leads components) property (chain m).schema := by
  induction m, hm using Nat.le_induction with
  | base => exact ⟨key, _, .refl, htaken.2, .refl⟩
  | succ m hm ih =>
      obtain ⟨key', property, hembeds, hproperty, hleads⟩ := ih
      rcases hstays m (by omega) with hstep | ⟨key'', htaken'⟩
      · exact ⟨key', property, hembeds, hproperty, hleads.tail hstep⟩
      · exact ⟨key'', _, hembeds.tail ⟨property, _, hproperty, hleads, htaken'.1⟩, htaken'.2, .refl⟩

/-- A component that is merged again and again is embedded in itself. -/
theorem transGen_embeds_of_frequently {chain : ℕ → Call} {start : ℕ} {key : String}
    (hstays : ∀ n ≥ start, Leads components (chain n).schema (chain (n + 1)).schema ∨
      ∃ key, TakenFrom components key (chain n) (chain (n + 1)))
    (hfrequent : ∃ᶠ n in atTop, TakenFrom components key (chain n) (chain (n + 1))) :
    TransGen (Embeds components) key key := by
  obtain ⟨n, hn, htaken⟩ := frequently_atTop.mp hfrequent start
  obtain ⟨m, hm, htaken'⟩ := frequently_atTop.mp hfrequent (n + 1)
  obtain ⟨key', property, hembeds, hproperty, hleads⟩ := exists_embedded hstays hn htaken m hm
  exact TransGen.tail' hembeds ⟨property, _, hproperty, hleads, htaken'.1⟩

/-- A call has a result exactly when it does not merge one component forever. -/
theorem result_isSome_iff (c : Call) :
    (c.result components).isSome ↔ ¬MergesForever components c := by
  have hacc : (c.result components).isSome ↔ Acc (fun c' c => Makes components c c') c :=
    ⟨acc_of_result, result_isSome_of_acc⟩
  rw [hacc, ← not_iff_not, not_not, not_acc_iff_exists_descending_chain]
  constructor
  · rintro ⟨chain, hfirst, hchain⟩
    obtain ⟨start, hstays⟩ := exists_stays hchain
    exact ⟨chain, hfirst, hchain, eventually_atTop.mpr ⟨start, fun n hn => (hstays n hn).1⟩,
      exists_frequently_takenFrom fun n hn => (hstays n hn).2⟩
  · rintro ⟨chain, hfirst, hchain, -, -⟩
    exact ⟨chain, hfirst, hchain⟩

/-- A call that merges one component forever has a component embedded in itself to merge. -/
theorem MergesForever.exists_transGen_embeds {c : Call} (h : MergesForever components c) :
    ∃ key, TransGen (Embeds components) key key := by
  obtain ⟨chain, -, hchain, -, key, hfrequent⟩ := h
  obtain ⟨start, hstays⟩ := exists_stays hchain
  exact ⟨key, transGen_embeds_of_frequently (fun n hn => (hstays n hn).2) hfrequent⟩

end Call

/-! ## Mappings that always end -/

/-- A mapping that ends in every registry. -/
def Ends {α : Type} (m : Mapping α) : Prop := ∀ r, (m r).isSome

namespace Ends

variable {α β : Type}

theorem pure (a : α) : Ends (Pure.pure a : Mapping α) := fun _ => rfl

theorem bind {m : Mapping α} {f : α → Mapping β} (hm : Ends m) (hf : ∀ a, Ends (f a)) :
    Ends (m >>= f) := fun r => (bind_isSome_iff hf r).mpr (hm r)

theorem get : Ends (MonadState.get : Mapping Registry) := fun _ => rfl

theorem declare (d : Declaration) : Ends (Schema.declare d) := fun _ => rfl

theorem mapM {f : α → Mapping β} (as : List α) (hf : ∀ a ∈ as, Ends (f a)) : Ends (as.mapM f) := by
  induction as with
  | nil => exact pure []
  | cons a as ih =>
      simp only [List.mapM_cons]
      exact (hf a List.mem_cons_self).bind fun b =>
        (ih fun a' ha' => hf a' (List.mem_cons_of_mem _ ha')).bind fun bs => pure _

end Ends

section

variable {components : Members} (h : ∀ c, ¬Call.MergesForever components c)
include h

/-- The mapping of every schema ends when no component is merged forever. -/
theorem ends_mapNode (pending : List String) (schema : Json) (name : String) (position : Position)
    (mediaType : Option String) :
    Ends (Scope.mapNode ⟨components, pending⟩ schema name position mediaType) := fun r =>
  (Call.result_isSome_iff ⟨pending, schema, name, position, mediaType, r⟩).mpr (h _)

theorem ends_mapParameters (ps : List Api.Parameter) (name : String) :
    Ends (mapParameters components ps name) := by
  unfold mapParameters
  split
  · exact .pure none
  refine Ends.get.bind fun r => ?_
  dsimp only
  split
  · exact .pure _
  refine (Ends.mapM ps fun p _ => ?_).bind fun fields => ?_
  · split
    · exact (ends_mapNode h _ _ _ _ _).bind fun type => .pure _
    · exact (ends_mapNode h _ _ _ _ _).bind fun type => .pure _
    · exact .pure _
  · exact (Ends.declare _).bind fun type => .pure _

theorem ends_mapContent (content : List Api.MediaSchema) (tool : String) :
    Ends (mapContent components content tool) := by
  unfold mapContent
  refine (Ends.mapM content fun media _ => ends_mapNode h _ _ _ _ _).bind fun types => ?_
  dsimp only
  split
  · exact .pure none
  · exact .pure _
  · exact (Ends.declare _).bind fun type => .pure _

end

theorem ends_compose (tool : String) (parameters body : Option (TypeExpr × Bool)) :
    Ends (compose tool parameters body) := by
  unfold compose
  split
  · exact (Ends.declare _).bind fun type => .pure _
  · exact .pure _
  · exact .pure _
  · exact .pure none

/-- Without components nothing can be merged forever. -/
theorem not_mergesForever_nil (c : Call) : ¬Call.MergesForever [] c := by
  intro hforever
  obtain ⟨key, hcycle⟩ := hforever.exists_transGen_embeds
  obtain ⟨key', ⟨property, schema, ⟨target, name, htarget, -⟩, -, -⟩, -⟩ :=
    TransGen.head'_iff.mp hcycle
  cases htarget

/-! ## Synthesis -/

open Tool

/-- What a tool of a request takes can be found when no component of its document is merged
forever. -/
theorem ends_requestInput {document : Json}
    (h : ∀ c, ¬Call.MergesForever (components document) c) (o : Api.Operation) (name : String) :
    Ends (requestInput document o name) := by
  refine (ends_mapParameters h _ _).bind fun parameters => ?_
  refine (ends_mapContent h _ _).bind fun body => ?_
  dsimp only
  split
  · exact .pure _
  refine (ends_compose _ _ _).bind fun type => ?_
  split
  · exact .pure _
  · exact .pure _

/-- What a tool of a function takes can always be found. -/
theorem ends_functionInput (f : Function) (name : String) : Ends (functionInput f name) := by
  refine (ends_mapParameters not_mergesForever_nil _ _).bind fun type => ?_
  split
  · exact .pure _
  · exact .pure _

/-- The synthesis of tools ends when no component of an interface is merged forever. -/
theorem ends_synthesize (groups : List ActionGroup) (gateway : Bool)
    (h : ∀ g ∈ groups, ∀ document, g.schema = some (.interface document) →
      ∀ c, ¬Call.MergesForever (components document) c) :
    Ends (synthesize groups gateway) := by
  refine Ends.mapM _ fun p hp => ?_
  obtain ⟨hgroup, htools⟩ := mem_plan hp
  refine (Ends.mapM _ fun tool htool => ?_).bind fun tools => .pure _
  obtain ⟨name, origin⟩ := tool
  refine Ends.bind ?_ fun input => ?_
  · unfold inputOf
    split
    · exact .pure _
    · cases origin with
      | request document o =>
          exact ends_requestInput (h _ hgroup document (request_mem_origins (htools _ htool)).1) o _
      | function f => exact ends_functionInput f _
  · cases origin <;> exact .pure _

/-! ## The exact condition -/

/-- A schema has a type exactly when its mapping does not merge one component forever, and no mapping
does where no component is embedded in itself through `allOf`. Parameters and bodies have types, and the
tools of action groups are found, wherever no component is merged forever. -/
theorem mapping_ends_iff (components : Members) :
    (∀ schema name r, (mapRoot components schema name r).isSome ↔
      ¬Call.MergesForever components ⟨[], schema, name, .root, none, r⟩) ∧
    (∀ schema name r, (mapField components schema name r).isSome ↔
      ¬Call.MergesForever components ⟨[], schema, name, .field, none, r⟩) ∧
    ((∀ key, ¬TransGen (Embeds components) key key) → ∀ c, ¬Call.MergesForever components c) ∧
    ((∀ c, ¬Call.MergesForever components c) →
      (∀ ps name, Ends (mapParameters components ps name)) ∧
      ∀ content tool, Ends (mapContent components content tool)) ∧
    ∀ groups gateway,
      (∀ g ∈ groups, ∀ document, g.schema = some (.interface document) →
        ∀ c, ¬Call.MergesForever (Schema.components document) c) →
      Ends (synthesize groups gateway) := by
  refine ⟨fun schema name r => Call.result_isSome_iff ⟨[], schema, name, .root, none, r⟩,
    fun schema name r => Call.result_isSome_iff ⟨[], schema, name, .field, none, r⟩,
    fun hacyclic c hforever => ?_, fun h => ⟨ends_mapParameters h, ends_mapContent h⟩,
    ends_synthesize⟩
  obtain ⟨key, hcycle⟩ := hforever.exists_transGen_embeds
  exact hacyclic key hcycle

/-! ## A component that merges itself -/

/-- A reference to the component `Node`. -/
def nodeReference : Json := .obj [("$ref", .str "#/components/schemas/Node")]

/-- The schema of a property that merges the component. -/
def nodeProperty : Json := .obj [("allOf", .arr [nodeReference])]

def nodeMembers : Members :=
  [("type", .str "object"), ("properties", .obj [("next", nodeProperty)])]

/-- A component whose property merges the component itself. -/
def selfMerging : Members := [("Node", .obj nodeMembers)]

/-- The calls for the component that merges itself: for the reference, for the component, and then for
its property under names that get longer. -/
def selfMergingChain : ℕ → Call
  | 0 => ⟨[], nodeReference, "tree", .root, none, {}⟩
  | 1 => ⟨["Node"], .obj nodeMembers, "Node", .root, none, {}⟩
  | n + 2 => ⟨["Node"], nodeProperty, (· ++ "_" ++ "next")^[n] "Node_next", .field, none, {}⟩

theorem makes_selfMergingChain (n : ℕ) :
    Call.Makes selfMerging (selfMergingChain n) (selfMergingChain (n + 1)) := by
  have hsegment : segment "#/components/schemas/Node" = "Node" := by decide
  have hclass : Name.pascal "Node" = "Node" := by decide
  match n with
  | 0 =>
    have hfollow := @Call.Makes.follow selfMerging (selfMergingChain 0)
      [("$ref", .str "#/components/schemas/Node")] _ (.obj nodeMembers) rfl rfl rfl
      List.not_mem_nil (by rw [hsegment]; rfl)
    rw [hsegment, hclass] at hfollow
    exact hfollow
  | 1 =>
    have hnested : nested selfMerging nodeMembers "Node" .root {} =
        [] ++ (nodeProperty, "Node_next") :: [] := rfl
    exact .nested rfl rfl hnested rfl
  | n + 2 =>
    have hpart : part selfMerging nodeReference = .obj nodeMembers := by
      simp only [part, nodeReference, Json.getString?, Json.get?, Table.lookup_cons, if_true,
        Option.bind_some, Json.string?, hsegment]
      rfl
    have hmerged : mergedProperties selfMerging [nodeReference] = [("next", nodeProperty)] := by
      rw [mergedProperties, List.map_singleton, hpart]
      rfl
    have hparts : parts? [("allOf", .arr [nodeReference])] = some [nodeReference] := rfl
    have hbranches : branches? [("allOf", .arr [nodeReference])] = none := rfl
    have hnested : nested selfMerging [("allOf", .arr [nodeReference])]
        ((· ++ "_" ++ "next")^[n] "Node_next") .field {} =
        [] ++ (nodeProperty, (· ++ "_" ++ "next")^[n + 1] "Node_next") :: [] := by
      rw [nested, hbranches, hparts, Function.iterate_succ_apply']
      simp only [hmerged]
      rfl
    exact .nested rfl rfl hnested rfl

/-- The mapping of a reference to a component that merges itself does not end. -/
theorem mapRoot_selfMerging : mapRoot selfMerging nodeReference "tree" {} = none := by
  have hforever : ¬Acc (fun c' c => Call.Makes selfMerging c c') (selfMergingChain 0) :=
    not_acc_iff_exists_descending_chain.mpr ⟨selfMergingChain, rfl, makes_selfMergingChain⟩
  rw [← Option.not_isSome_iff_eq_none]
  exact fun hsome => hforever (Call.acc_of_result hsome)

end AgentCompiler.Schema
