import Mathlib.Logic.Relation
import Mathlib.Order.WellFounded
import AgentCompiler.Proofs.Schema.Inlined

/-!
# Inlining without a guard

The plain conversion puts the conversion of a component in the place of every reference, and remembers
nothing. It has a result exactly when every reference that it follows leads to a component and none of
these components refers to itself, directly or through others. Then inlining gives the same result, and
no placeholder is ever put for a reference: `inline_plain_iff`.
-/

namespace AgentCompiler.Schema

open Relation

/-! ## The plain conversion -/

/-- A reference becomes the conversion of its component, a choice that of its first branch, any other
object keeps its members with the schemas in them converted, and any other value stays. Nothing stands in
for a reference without a component. -/
inductive Plain (components : Members) : Json → Json → Prop
  | reference {node : Members} {reference : String} {target out : Json}
      (href : reference? node = some reference)
      (htarget : components.lookup (segment reference) = some target)
      (hout : Plain components target out) : Plain components (.obj node) out
  | branch {node : Members} {branch out : Json} (href : reference? node = none)
      (hchoice : choice? node = some branch) (hout : Plain components branch out) :
      Plain components (.obj node) (describe (node.lookup "description") out)
  | members {node : Members} {f : Json → Json} (href : reference? node = none)
      (hchoice : choice? node = none)
      (hout : ∀ schema, Inside (.obj node) schema → Plain components schema (f schema)) :
      Plain components (.obj node) (.obj (convertMembers f node))
  | value {schema : Json} (hvalue : ∀ node, schema ≠ .obj node) : Plain components schema schema

/-- The conversion of a schema follows a reference to a component, before it follows any other one. -/
inductive RefersTo : Json → String → Prop
  | reference {node : Members} {reference : String} (href : reference? node = some reference) :
      RefersTo (.obj node) (segment reference)
  | branch {node : Members} {branch : Json} {key : String} (href : reference? node = none)
      (hchoice : choice? node = some branch) (hbranch : RefersTo branch key) :
      RefersTo (.obj node) key
  | inside {node : Members} {schema : Json} {key : String} (href : reference? node = none)
      (hchoice : choice? node = none) (hinside : Inside (.obj node) schema)
      (hschema : RefersTo schema key) : RefersTo (.obj node) key

/-- One component refers to another. -/
def Refers (components : Members) (key key' : String) : Prop :=
  ∃ target, components.lookup key = some target ∧ RefersTo target key'

/-- The conversion of a schema follows a reference to a component, at once or through others. -/
def Follows (components : Members) (schema : Json) (key : String) : Prop :=
  ∃ first, RefersTo schema first ∧ ReflTransGen (Refers components) first key

/-- A conversion that puts a placeholder: for a reference that leads nowhere, or to a component that is
being replaced. -/
def Guarded (components : Members) (c : Conversion) : Prop :=
  ∃ node reference, c.2 = .obj node ∧ reference? node = some reference ∧
    (segment reference ∈ c.1 ∨ components.lookup (segment reference) = none)

variable {components node : Members} {schema out out' : Json} {key reference : String}

/-! ## One result at most -/

theorem RefersTo.eq_segment (h : RefersTo (.obj node) key) (href : reference? node = some reference) :
    key = segment reference := by
  cases h with
  | reference href' => rw [Option.some.inj (href.symm.trans href')]
  | branch href' => cases href.symm.trans href'
  | inside href' => cases href.symm.trans href'

/-- The plain conversion has one result. -/
theorem Plain.unique (h : Plain components schema out) (h' : Plain components schema out') :
    out = out' := by
  induction h generalizing out' with
  | reference href htarget _ ih =>
      cases h' with
      | reference href' htarget' hout' =>
          obtain rfl := Option.some.inj (href.symm.trans href')
          obtain rfl := Option.some.inj (htarget.symm.trans htarget')
          exact ih hout'
      | branch href' => cases href.symm.trans href'
      | members href' => cases href.symm.trans href'
      | value hvalue => exact absurd rfl (hvalue _)
  | branch href hchoice _ ih =>
      cases h' with
      | reference href' => cases href.symm.trans href'
      | branch _ hchoice' hout' =>
          obtain rfl := Option.some.inj (hchoice.symm.trans hchoice')
          rw [ih hout']
      | members _ hchoice' => cases hchoice.symm.trans hchoice'
      | value hvalue => exact absurd rfl (hvalue _)
  | members href hchoice _ ih =>
      cases h' with
      | reference href' => cases href.symm.trans href'
      | branch _ hchoice' => cases hchoice.symm.trans hchoice'
      | members _ _ hout' =>
          exact congrArg Json.obj (convertMembers_congr fun schema hinside =>
            ih schema hinside (hout' schema hinside))
      | value hvalue => exact absurd rfl (hvalue _)
  | value hvalue =>
      cases h' with
      | reference | branch | members => exact absurd rfl (hvalue _)
      | value => rfl

/-! ## What a result needs -/

/-- What a conversion with a result refers to leads to components, and not on and on. -/
theorem Plain.leads (h : Plain components schema out) (hkey : RefersTo schema key) :
    (∀ key', ReflTransGen (Refers components) key key' → (components.lookup key').isSome) ∧
      Acc (fun k' k => Refers components k k') key := by
  induction h generalizing key with
  | @reference node reference target _ href htarget _ ih =>
      obtain rfl := hkey.eq_segment href
      -- Whatever the component refers to is referred to by its schema, which has a result.
      have hnext {k : String} (hk : Refers components (segment reference) k) : RefersTo target k := by
        obtain ⟨target', htarget', hrefers⟩ := hk
        rwa [Option.some.inj (htarget.symm.trans htarget')]
      refine ⟨fun key' hkey' => ?_, Acc.intro _ fun k hk => (ih (hnext hk)).2⟩
      rcases ReflTransGen.cases_head hkey' with rfl | ⟨k, hk, hrest⟩
      · exact Option.isSome_iff_exists.mpr ⟨target, htarget⟩
      · exact (ih (hnext hk)).1 key' hrest
  | branch href hchoice _ ih =>
      cases hkey with
      | reference href' => cases href.symm.trans href'
      | branch _ hchoice' hbranch =>
          obtain rfl := Option.some.inj (hchoice.symm.trans hchoice')
          exact ih hbranch
      | inside _ hchoice' => cases hchoice.symm.trans hchoice'
  | members href hchoice _ ih =>
      cases hkey with
      | reference href' => cases href.symm.trans href'
      | branch _ hchoice' => cases hchoice.symm.trans hchoice'
      | inside _ _ hinside hschema => exact ih _ hinside hschema
  | value hvalue => cases hkey <;> exact absurd rfl (hvalue _)

/-- What comes to an end does not come back to itself. -/
theorem not_transGen_of_acc (h : Acc (fun k' k => Refers components k k') key) :
    ¬TransGen (Refers components) key key := by
  induction h with
  | intro key _ ih =>
      intro hcycle
      obtain ⟨key', hstep, hback⟩ := TransGen.head'_iff.mp hcycle
      exact ih key' hstep (TransGen.tail' hback hstep)

/-- Every reference that is followed leads to a component that does not refer to itself. -/
theorem Plain.follows (h : Plain components schema out) (hkey : Follows components schema key) :
    (components.lookup key).isSome ∧ ¬TransGen (Refers components) key key := by
  obtain ⟨first, hfirst, hrefers⟩ := hkey
  obtain ⟨hsome, hacc⟩ := h.leads hfirst
  refine ⟨hsome key hrefers, not_transGen_of_acc ?_⟩
  clear hfirst hsome
  induction hrefers with
  | refl => exact hacc
  | tail _ hstep ih => exact ih.inv hstep

/-! ## Conversions without a placeholder -/

/-- The references that a conversion follows lead to components that do not refer to themselves, and the
components that are being replaced all refer to what the schema refers to. -/
structure Unguarded (components : Members) (c : Conversion) : Prop where
  target : ∀ key, Follows components c.2 key → (components.lookup key).isSome
  acyclic : ∀ key, Follows components c.2 key → ¬TransGen (Refers components) key key
  pending : ∀ p ∈ c.1, ∀ key, RefersTo c.2 key → TransGen (Refers components) p key

theorem follows_of_refersTo (h : RefersTo schema key) : Follows components schema key := ⟨key, h, .refl⟩

namespace Unguarded

variable {c c' : Conversion}

theorem not_guarded (h : Unguarded components c) : ¬Guarded components c := by
  obtain ⟨pending, schema⟩ := c
  rintro ⟨node, reference, hschema, href, hplaced⟩
  obtain rfl : schema = .obj node := hschema
  have hrefers : RefersTo (.obj node) (segment reference) := .reference href
  rcases hplaced with hpending | hnone
  · exact h.acyclic _ (follows_of_refersTo hrefers) (h.pending _ hpending _ hrefers)
  · have hsome := h.target _ (follows_of_refersTo hrefers)
    rw [hnone] at hsome
    cases hsome

/-- What an unguarded conversion needs is unguarded. -/
theorem opens (h : Unguarded components c) (hopens : Opens components c c') :
    Unguarded components c' := by
  cases hopens with
  | @follow pending node reference target href htarget _ =>
      have hrefers : RefersTo (.obj node) (segment reference) := .reference href
      have hstep {key : String} (hkey : RefersTo target key) :
          Refers components (segment reference) key := ⟨target, htarget, hkey⟩
      have hfollows {key : String} (hkey : Follows components target key) :
          Follows components (.obj node) key := by
        obtain ⟨first, hfirst, hrest⟩ := hkey
        exact ⟨segment reference, hrefers, .head (hstep hfirst) hrest⟩
      refine ⟨fun key hkey => h.target key (hfollows hkey),
        fun key hkey => h.acyclic key (hfollows hkey), fun p hp key hkey => ?_⟩
      rcases List.mem_cons.mp hp with rfl | hp
      · exact .single (hstep hkey)
      · exact .tail (h.pending p hp _ hrefers) (hstep hkey)
  | branch href hchoice =>
      have hrefers {key : String} (hkey : RefersTo _ key) := RefersTo.branch href hchoice hkey
      exact ⟨fun key ⟨first, hfirst, hrest⟩ => h.target key ⟨first, hrefers hfirst, hrest⟩,
        fun key ⟨first, hfirst, hrest⟩ => h.acyclic key ⟨first, hrefers hfirst, hrest⟩,
        fun p hp key hkey => h.pending p hp key (hrefers hkey)⟩
  | inside href hchoice hinside =>
      have hrefers {key : String} (hkey : RefersTo _ key) := RefersTo.inside href hchoice hinside hkey
      exact ⟨fun key ⟨first, hfirst, hrest⟩ => h.target key ⟨first, hrefers hfirst, hrest⟩,
        fun key ⟨first, hfirst, hrest⟩ => h.acyclic key ⟨first, hrefers hfirst, hrest⟩,
        fun p hp key hkey => h.pending p hp key (hrefers hkey)⟩

/-- What an unguarded conversion needs through others is unguarded. -/
theorem of_reflTransGen (h : Unguarded components c)
    (hopens : ReflTransGen (Opens components) c c') : Unguarded components c' := by
  induction hopens with
  | refl => exact h
  | tail _ hstep ih => exact ih.opens hstep

/-- An unguarded conversion gives what the plain one gives. -/
theorem plain (h : Unguarded components c) : Plain components c.2 (converted components c) := by
  induction c using (wellFounded_opens components).induction with
  | _ c ih =>
      obtain ⟨pending, schema⟩ := c
      rw [converted_eq]
      cases schema with
      | null | bool _ | num _ | str _ | arr _ => exact .value fun node hnode => by cases hnode
      | obj node =>
          cases href : reference? node with
          | some reference =>
              have hguarded := h.not_guarded
              obtain ⟨target, htarget⟩ := Option.isSome_iff_exists.mp
                (h.target _ (follows_of_refersTo (.reference href)))
              have hnew : segment reference ∉ pending := fun hmem =>
                hguarded ⟨node, reference, rfl, href, .inl hmem⟩
              have hopens : Opens components (pending, .obj node) (segment reference :: pending, target) :=
                .follow href htarget hnew
              simp only [convertStep, href, htarget, hnew, if_false]
              exact .reference href htarget (ih _ hopens (h.opens hopens))
          | none =>
              cases hchoice : choice? node with
              | some branch =>
                  have hopens : Opens components (pending, .obj node) (pending, branch) :=
                    .branch href hchoice
                  simp only [convertStep, href, hchoice]
                  exact .branch href hchoice (ih _ hopens (h.opens hopens))
              | none =>
                  simp only [convertStep, href, hchoice]
                  refine .members href hchoice fun schema hinside => ?_
                  have hopens : Opens components (pending, .obj node) (pending, schema) :=
                    .inside href hchoice hinside
                  exact ih _ hopens (h.opens hopens)

end Unguarded

/-- The plain conversion of a schema has a result exactly when every reference that it follows leads to a
component that does not refer to itself, at once or through others. Then inlining gives this result and
no other one, however often a component is referred to, and puts no placeholder in any conversion that it
makes on the way. -/
theorem inline_plain_iff (components : Members) (schema : Json) :
    ((∃ out, Plain components schema out) ↔ ∀ key, Follows components schema key →
      (components.lookup key).isSome ∧ ¬TransGen (Refers components) key key) ∧
    ∀ out, Plain components schema out → inline components schema = out ∧
      ∀ c, ReflTransGen (Opens components) ([], schema) c → ¬Guarded components c := by
  have hunguarded (h : ∀ key, Follows components schema key →
      (components.lookup key).isSome ∧ ¬TransGen (Refers components) key key) :
      Unguarded components ([], schema) :=
    ⟨fun key hkey => (h key hkey).1, fun key hkey => (h key hkey).2, List.forall_mem_nil _⟩
  refine ⟨⟨fun ⟨out, hout⟩ key hkey => hout.follows hkey, fun h => ⟨_, (hunguarded h).plain⟩⟩,
    fun out hout => ?_⟩
  have h := hunguarded fun key hkey => hout.follows hkey
  rw [inline_eq_converted]
  exact ⟨h.plain.unique hout, fun c hopens => (h.of_reflTransGen hopens).not_guarded⟩

/-! ## Houses that are let -/

/-- The schemas inside of an object. -/
def places (node : Members) : List Json :=
  node.flatMap fun
    | ("properties", .obj props) => props.map Prod.snd
    | ("allOf", .arr parts) => parts
    | (key, schema) => if key ∈ schemaKeywords then [schema] else []

theorem mem_places_of_inside (h : Inside (.obj node) schema) : schema ∈ places node := by
  rw [places, List.mem_flatMap]
  cases h with
  | property hprops hschema => exact ⟨_, hprops, List.mem_map_of_mem hschema⟩
  | @part _ parts _ hparts hschema => exact ⟨_, hparts, hschema⟩
  | @keyword _ key _ hkey hschema =>
      refine ⟨_, hschema, ?_⟩
      have hproperties : key ≠ "properties" := by
        rintro rfl
        exact absurd hkey (by decide)
      have hparts : key ≠ "allOf" := by
        rintro rfl
        exact absurd hkey (by decide)
      split
      · next heq => exact absurd (congrArg Prod.fst heq) hproperties
      · next heq => exact absurd (congrArg Prod.fst heq) hparts
      · next heq =>
          cases heq
          rw [if_pos hkey]
          exact List.mem_singleton_self _

/-- A text, without schemas inside of it. -/
def nameText : Json := .obj [("type", .str "string")]

def person : Json := .obj [("type", .str "object"), ("properties", .obj [("name", nameText)])]

def personReference : Json := .obj [("$ref", .str "#/components/schemas/Person")]

/-- A house, whose owner and tenant are of the given schema. -/
def houseOf (inhabitant : Json) : Json :=
  .obj [("properties", .obj [("owner", inhabitant), ("tenant", inhabitant)])]

def houseReference : Json := .obj [("$ref", .str "#/components/schemas/House")]

/-- Two of the same schema. -/
def pairOf (schema : Json) : Json := .obj [("allOf", .arr [schema, schema])]

def estate : Members := [("Person", person), ("House", houseOf personReference)]

theorem plain_person : Plain estate person person := by
  refine .members (f := id) rfl rfl fun schema hinside => ?_
  obtain rfl : schema = nameText := List.mem_singleton.mp (mem_places_of_inside hinside)
  exact .members (f := id) rfl rfl fun schema hinside => by cases mem_places_of_inside hinside

theorem plain_personReference : Plain estate personReference person := by
  have hsegment : segment "#/components/schemas/Person" = "Person" := by decide
  have href : reference? [("$ref", .str "#/components/schemas/Person")] =
      some "#/components/schemas/Person" := rfl
  exact .reference href (by rw [hsegment]; rfl) plain_person

theorem plain_houseReference : Plain estate houseReference (houseOf person) := by
  have hsegment : segment "#/components/schemas/House" = "House" := by decide
  have href : reference? [("$ref", .str "#/components/schemas/House")] =
      some "#/components/schemas/House" := rfl
  refine .reference href (by rw [hsegment]; rfl) ?_
  refine .members (f := fun _ => person) rfl rfl fun schema hinside => ?_
  have hmem : schema ∈ [personReference, personReference] := mem_places_of_inside hinside
  obtain rfl : schema = personReference := by simpa using hmem
  exact plain_personReference

/-- Two houses refer to a person four times, and every one is inlined. -/
theorem inline_plain_pair :
    inline estate (pairOf houseReference) = pairOf (houseOf person) ∧
      ∀ c, ReflTransGen (Opens estate) ([], pairOf houseReference) c → ¬Guarded estate c := by
  refine (inline_plain_iff estate (pairOf houseReference)).2 _ ?_
  refine .members (f := fun _ => houseOf person) rfl rfl fun schema hinside => ?_
  have hmem : schema ∈ [houseReference, houseReference] := mem_places_of_inside hinside
  obtain rfl : schema = houseReference := by simpa using hmem
  exact plain_houseReference

end AgentCompiler.Schema
