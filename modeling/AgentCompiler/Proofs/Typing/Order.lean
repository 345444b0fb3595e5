import Mathlib.Data.List.Infix
import AgentCompiler.Typing.Registry

/-!
# Order of definition

A registry is in order when every name that a declaration mentions is declared before it. Adding a
declaration keeps the order when the names that it mentions are declared.
-/

namespace AgentCompiler

/-! ## Mentioned names -/

namespace TypeExpr

mutual
/-- The declarations that a type mentions. -/
def names : TypeExpr → List String
  | list item => names item
  | named name => [name]
  | union variants => namesAll variants
  | text | integer | real | truth | none | any | map | literal _ => []
/-- The declarations that several types mention. -/
def namesAll : List TypeExpr → List String
  | [] => []
  | t :: ts => names t ++ namesAll ts
end

/-- A declaration is mentioned by several types when one of them mentions it. -/
theorem mem_namesAll {name : String} {ts : List TypeExpr} :
    name ∈ namesAll ts ↔ ∃ t ∈ ts, name ∈ names t := by
  induction ts with
  | nil => simp [namesAll]
  | cons t ts ih => simp only [namesAll, List.mem_append, ih, List.exists_mem_cons_iff]

/-- The type of a tag mentions no declaration. -/
theorem names_ofTag (tag : String) : names (ofTag tag) = [] := by
  unfold ofTag
  split <;> rfl

end TypeExpr

namespace Declaration

/-- The types that a declaration is made of: those of its fields, or its variants. -/
def types (d : Declaration) : List TypeExpr :=
  match d.shape with
  | .record fields => fields.map Field.type
  | .union variants => variants

/-- A field that is renamed keeps its type. -/
theorem type_rename (f : Field) (name : String) : (f.rename name).type = f.type := by
  unfold Field.rename
  split <;> rfl

/-- The field of a property has the type of the property. -/
theorem type_ofProperty (property : String) (type : TypeExpr) (required : Bool)
    (description : Option String) :
    (Field.ofProperty property type required description).type = type := by
  unfold Field.ofProperty
  dsimp only
  split <;> rfl

/-- A record is made of the types of the fields that it is made from. -/
theorem mem_types_record {name : String} {description : Option String} {fields : List Field}
    {t : TypeExpr} (h : t ∈ (record name description fields).types) : ∃ f ∈ fields, f.type = t := by
  obtain ⟨g, hg, rfl⟩ := List.mem_map.mp h
  obtain ⟨i, hi, rfl⟩ := List.mem_iff_getElem.mp hg
  rw [List.getElem_zipWith, type_rename]
  exact ⟨_, List.getElem_mem _, rfl⟩

end Declaration

/-! ## Registries -/

namespace Registry

/-- A name is declared exactly when it is the name of a declaration. -/
theorem contains_iff {r : Registry} {name : String} :
    r.contains name ↔ ∃ d ∈ r.declarations, d.name = name := by
  simp [contains]

/-- Every name that a type mentions is declared. -/
def Knows (r : Registry) (t : TypeExpr) : Prop := ∀ name ∈ t.names, r.contains name

/-- A type that mentions nothing is known. -/
theorem knows_of_names_eq_nil {r : Registry} {t : TypeExpr} (h : t.names = []) : r.Knows t := by
  intro name hname
  rw [h] at hname
  cases hname

theorem knows_named {r : Registry} {name : String} : r.Knows (.named name) ↔ r.contains name := by
  simp only [Knows, TypeExpr.names, List.mem_singleton, forall_eq]

theorem knows_list {r : Registry} {t : TypeExpr} : r.Knows (.list t) ↔ r.Knows t := Iff.rfl

theorem knows_union {r : Registry} {ts : List TypeExpr} :
    r.Knows (.union ts) ↔ ∀ t ∈ ts, r.Knows t := by
  simp only [Knows, TypeExpr.names, TypeExpr.mem_namesAll]
  constructor
  · exact fun h t ht name hname => h name ⟨t, ht, hname⟩
  · rintro h name ⟨t, ht, hname⟩
    exact h t ht name hname

/-- Every name that the declaration at an index mentions is the name of one at a smaller index. -/
def Ordered (r : Registry) : Prop :=
  ∀ (i : Nat) (d : Declaration), r.declarations[i]? = some d → ∀ t ∈ d.types, ∀ name ∈ t.names,
    ∃ (j : Nat) (d' : Declaration), j < i ∧ r.declarations[j]? = some d' ∧ d'.name = name

/-- Declarations are added behind those of a registry. -/
def Within (r r' : Registry) : Prop := r.declarations <+: r'.declarations

theorem Within.refl (r : Registry) : r.Within r := List.prefix_rfl

theorem Within.trans {r r' r'' : Registry} (h : r.Within r') (h' : r'.Within r'') : r.Within r'' :=
  List.IsPrefix.trans h h'

/-- What is declared stays declared. -/
theorem Within.contains {r r' : Registry} (h : r.Within r') {name : String}
    (hname : r.contains name) : r'.contains name := by
  obtain ⟨d, hd, hdname⟩ := contains_iff.mp hname
  exact contains_iff.mpr ⟨d, h.subset hd, hdname⟩

/-- A type whose names are declared keeps them. -/
theorem Within.knows {r r' : Registry} (h : r.Within r') {t : TypeExpr} (ht : r.Knows t) :
    r'.Knows t := fun name hname => h.contains (ht name hname)

/-- An empty registry is in order. -/
theorem ordered_empty : Ordered {} := by
  intro i d hd
  cases hd

/-- A declaration is added behind the others. -/
theorem within_register (r : Registry) (d : Declaration) : r.Within (r.register d) := by
  unfold register
  split
  · exact .refl r
  · exact List.prefix_append _ _

/-- What is added is declared. -/
theorem contains_register (r : Registry) (d : Declaration) : (r.register d).contains d.name := by
  unfold register
  split
  · assumption
  · exact contains_iff.mpr ⟨d, List.mem_append_right _ List.mem_cons_self, rfl⟩

/-- A registry stays in order when a declaration is added that mentions declared names only. -/
theorem Ordered.register {r : Registry} (hr : r.Ordered) {d : Declaration}
    (hd : ∀ t ∈ d.types, r.Knows t) : (r.register d).Ordered := by
  unfold Registry.register
  split
  · exact hr
  intro i d' hd' t ht name hname
  by_cases hi : i < r.declarations.length
  · rw [List.getElem?_append_left hi] at hd'
    obtain ⟨j, e, hj, he, hename⟩ := hr i d' hd' t ht name hname
    exact ⟨j, e, hj, by rw [List.getElem?_append_left (by omega), he], hename⟩
  · -- The new declaration stands last, so every declared name stands before it.
    rw [List.getElem?_append_right (by omega)] at hd'
    obtain rfl : d' = d := List.mem_singleton.mp (List.mem_of_getElem? hd')
    obtain ⟨e, he, hename⟩ := contains_iff.mp (hd t ht name hname)
    obtain ⟨j, hj, rfl⟩ := List.mem_iff_getElem.mp he
    refine ⟨j, _, by omega, ?_, hename⟩
    rw [List.getElem?_append_left hj, List.getElem?_eq_getElem hj]

end Registry

end AgentCompiler
